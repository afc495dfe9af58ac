import SrsLte.ByteBuffer
import Mathlib.Data.List.FinRange

/-!
# MAC PDUs for DL-SCH and UL-SCH

Writer and parser of `sch_pdu` with subheaders of type `SCH_SUBH_TYPE`. The subheaders in use are
a list, so `nof_subheaders` is its length. The power headroom is given by its six-bit report
value. A call that reports failure, by `false`, `nullptr` or a size that is not positive, is
`none`.
-/

namespace SrsLte

namespace Lcid

def phrReport : ℕ := 0b11010
def crnti : ℕ := 0b11011
def scellActivation : ℕ := 0b11011
def truncBsr : ℕ := 0b11100
def conResId : ℕ := 0b11100
def shortBsr : ℕ := 0b11101
def taCmd : ℕ := 0b11101
def longBsr : ℕ := 0b11110
def drxCmd : ℕ := 0b11110
def padding : ℕ := 0b11111

end Lcid

/-- `ce_type() == SDU`. -/
def isSdu (lcid : ℕ) : Bool := lcid < Lcid.phrReport

def sizeofCe (lcid : ℕ) (isUl : Bool) : ℕ :=
  if isUl then
    if lcid = Lcid.phrReport then 1
    else if lcid = Lcid.crnti then 2
    else if lcid = Lcid.truncBsr then 1
    else if lcid = Lcid.shortBsr then 1
    else if lcid = Lcid.longBsr then 3
    else 0
  else
    if lcid = Lcid.conResId then 6
    else if lcid = Lcid.taCmd then 1
    else if lcid = Lcid.scellActivation then 1
    else 0

def sizeHeaderSdu (nbytes : ℕ) : ℕ := if nbytes < 128 then 2 else 3

structure SchSubh where
  lcid : ℕ
  nofBytes : ℕ
  wPayloadCe : Bytes
  deriving DecidableEq

namespace SchSubh

def init : SchSubh := ⟨0, 0, List.replicate 64 0⟩

def getHeaderSize (s : SchSubh) (isLast : Bool) : ℕ :=
  if isLast then 1 else if isSdu s.lcid then sizeHeaderSdu s.nofBytes else 1

def writeSubheader (lcid nofBytes : ℕ) (isLast : Bool) : Bytes :=
  UInt8.ofNat ((if isLast then 0 else 1 <<< 5) ||| (lcid &&& 0x1F)) ::
    if isSdu lcid ∧ ¬ isLast then
      if nofBytes ≥ 128 then
        [UInt8.ofNat (1 <<< 7 ||| (nofBytes &&& 0x7F00) >>> 8), UInt8.ofNat (nofBytes &&& 0xFF)]
      else [UInt8.ofNat (nofBytes &&& 0x7F)]
    else []

/-- `write_payload` of a CE: the first `sizeof_ce` bytes of `w_payload_ce`. -/
def writePayload (s : SchSubh) (isUl : Bool) : Bytes := s.wPayloadCe.take (sizeofCe s.lcid isUl)

end SchSubh

structure SchPdu where
  maxSubheaders : ℕ
  subheaders : List SchSubh
  pduLen : ℕ
  remLen : ℕ
  curIdx : Option ℕ
  lastSduIdx : Option ℕ
  pduIsUl : Bool
  buffer : ByteBuffer

def btable : List ℕ :=
  [0, 1, 10, 12, 14, 17, 19, 22, 26, 31, 36, 42, 49, 57, 67, 78,
   91, 107, 125, 146, 171, 200, 234, 274, 321, 376, 440, 515, 603, 706, 826, 967,
   1132, 1326, 1552, 1817, 2127, 2490, 2915, 3413, 3995, 4667, 5476, 6411, 7505, 8787, 10287, 12043,
   14099, 16507, 19325, 22624, 26487, 31009, 36304, 42502, 49759, 58255, 68201, 79846, 93479,
   109439, 128125, 150000]

def buffSizeTable (bufferSize : ℕ) : ℕ :=
  if bufferSize = 0 then 0
  else if bufferSize > 150000 then 63
  else
    match (List.range 61).find? fun i => bufferSize < btable.getD (i + 2) 0 with
    | some i => 1 + i
    | none => 62

inductive BsrFormat
  | truncBsr
  | shortBsr
  | longBsr
  deriving DecidableEq

inductive CeSetting
  | bsr (format : BsrFormat) (buffSize : Fin 4 → ℕ)
  | cRnti (crnti : ℕ)
  | conResId (conResId : ℕ)
  | phr (report : ℕ)
  | taCmd (taCmd : ℕ)

namespace CeSetting

def lcid : CeSetting → ℕ
  | bsr .truncBsr _ => Lcid.truncBsr
  | bsr .shortBsr _ => Lcid.shortBsr
  | bsr .longBsr _ => Lcid.longBsr
  | cRnti _ => Lcid.crnti
  | conResId _ => Lcid.conResId
  | phr _ => Lcid.phrReport
  | taCmd _ => Lcid.taCmd

def nonzeroLcg (buffSize : Fin 4 → ℕ) : Fin 4 :=
  (List.finRange 4).foldl (fun lcg i => if buffSize i ≠ 0 then i else lcg) 0

/-- The bytes stored in `w_payload_ce`. -/
def bytes : CeSetting → Bytes
  | bsr .longBsr buffSize =>
    let level := fun i => buffSizeTable (buffSize i)
    [UInt8.ofNat ((level 0 &&& 0x3F) <<< 2 ||| (level 1 &&& 0x30) >>> 4),
     UInt8.ofNat ((level 1 &&& 0xF) <<< 4 ||| (level 2 &&& 0x3C) >>> 2),
     UInt8.ofNat ((level 2 &&& 0x3) <<< 6 ||| level 3 &&& 0x3F)]
  | bsr _ buffSize =>
    let lcg := nonzeroLcg buffSize
    [UInt8.ofNat ((lcg.val &&& 0x3) <<< 6 ||| buffSizeTable (buffSize lcg) &&& 0x3F)]
  | cRnti crnti => [UInt8.ofNat ((crnti &&& 0xFF00) >>> 8), UInt8.ofNat (crnti &&& 0x00FF)]
  | conResId id =>
    [UInt8.ofNat ((id &&& 0xFF0000000000) >>> 40), UInt8.ofNat ((id &&& 0x00FF00000000) >>> 32),
     UInt8.ofNat ((id &&& 0x0000FF000000) >>> 24), UInt8.ofNat ((id &&& 0x000000FF0000) >>> 16),
     UInt8.ofNat ((id &&& 0x00000000FF00) >>> 8), UInt8.ofNat (id &&& 0x0000000000FF)]
  | phr report => [UInt8.ofNat (report &&& 0x3F)]
  | taCmd cmd => [UInt8.ofNat (cmd &&& 0x3F)]

end CeSetting

inductive SchSetting
  | ce (ce : CeSetting)
  | sdu (lcid : ℕ) (data : Bytes)
  | sduItf (lcid requested : ℕ) (reply : Option Bytes)

inductive SchCall
  | newSubh
  | set (setting : SchSetting)

namespace SchPdu

/-- `init_tx` on a buffer. -/
def initTx (maxSubheaders pduLen : ℕ) (isUl : Bool) (buffer : ByteBuffer) : SchPdu where
  maxSubheaders := maxSubheaders
  subheaders := []
  pduLen := pduLen
  remLen := pduLen
  curIdx := none
  lastSduIdx := none
  pduIsUl := isUl
  buffer := buffer

def next (p : SchPdu) : Option SchPdu :=
  let idx := (p.curIdx.map (· + 1)).getD 0
  if idx < p.subheaders.length then some { p with curIdx := some idx } else none

def newSubh (p : SchPdu) : Option SchPdu :=
  if p.subheaders.length + 1 < p.maxSubheaders ∧ p.remLen > 0 ∧ p.buffer.headroom > 1 then
    { p with subheaders := p.subheaders ++ [SchSubh.init] }.next
  else none

def modifyCur (p : SchPdu) (f : SchSubh → SchSubh) : Option SchPdu :=
  p.curIdx.map fun i => { p with subheaders := p.subheaders.modify i f }

def payloadSize (p : SchPdu) (i : ℕ) : ℕ := (p.subheaders[i]?.map SchSubh.nofBytes).getD 0

def hasSpaceCe (p : SchPdu) (nbytes : ℕ) : Bool := p.remLen ≥ nbytes + 1

def updateSpaceCe (p : SchPdu) (nbytes : ℕ) : SchPdu :=
  if p.hasSpaceCe nbytes then { p with remLen := p.remLen - (nbytes + 1) } else p

def lastSduGrowth (p : SchPdu) : ℕ :=
  match p.lastSduIdx with
  | none => 0
  | some i => sizeHeaderSdu (p.payloadSize i) - 1

def getSduSpace (p : SchPdu) : ℕ := min (p.remLen - p.lastSduGrowth - 1) p.buffer.tailroom

def hasSpaceSdu (p : SchPdu) (nbytes : ℕ) : Bool := p.getSduSpace ≥ nbytes

def updateSpaceSdu (p : SchPdu) (nbytes : ℕ) : SchPdu :=
  if p.hasSpaceSdu nbytes then
    { p with remLen := p.remLen - (nbytes + 1 + p.lastSduGrowth), lastSduIdx := p.curIdx }
  else p

/-- The SDU bytes written behind the message, and `add_sdu`. -/
def addSdu (p : SchPdu) (data : Bytes) : SchPdu :=
  if h : data.length ≤ p.buffer.tailroom then { p with buffer := p.buffer.append data h } else p

def setCe (p : SchPdu) (ce : CeSetting) : Option SchPdu :=
  let size := ce.bytes.length
  if p.hasSpaceCe size then
    (p.updateSpaceCe size).modifyCur fun s =>
      { lcid := ce.lcid, nofBytes := size, wPayloadCe := ce.bytes ++ s.wPayloadCe.drop size }
  else none

/-- `set_sdu` with a payload: the bytes are added before the space is accounted for. -/
def setSdu (p : SchPdu) (lcid : ℕ) (data : Bytes) : Option SchPdu :=
  if p.hasSpaceSdu data.length ∧ data ≠ [] then
    ((p.addSdu data).updateSpaceSdu data.length).modifyCur fun s =>
      { s with lcid := lcid, nofBytes := data.length }
  else none

/-- `set_sdu` with a read interface, which answers with `reply`, `none` for an error. -/
def setSduItf (p : SchPdu) (lcid requested : ℕ) (reply : Option Bytes) : Option SchPdu :=
  if p.hasSpaceSdu requested then do
    let data ← reply
    if data ≠ [] ∧ data.length ≤ requested then do
      let p ← p.modifyCur fun s => { s with lcid := lcid, nofBytes := data.length }
      return (p.updateSpaceSdu data.length).addSdu data
    else none
  else none

def applySetting (p : SchPdu) : SchSetting → Option SchPdu
  | .ce ce => p.setCe ce
  | .sdu lcid data => p.setSdu lcid data
  | .sduItf lcid requested reply => p.setSduItf lcid requested reply

def call (p : SchPdu) : SchCall → Option SchPdu
  | .newSubh => p.newSubh
  | .set setting => p.applySetting setting

def callAll (p : SchPdu) : List SchCall → Option SchPdu
  | [] => some p
  | c :: cs => (p.call c).bind fun p => callAll p cs

def isMultibytePadding (p : SchPdu) : Bool := p.remLen > 2

def onetwoPadding (p : SchPdu) : ℕ := if p.isMultibytePadding then 0 else p.remLen

/-- The header bytes the last SDU needs in front of multi-byte padding, less the one assumed. -/
def lastSduHeaderGrowth (p : SchPdu) : ℕ :=
  match p.lastSduIdx with
  | none => 0
  | some i => ((p.subheaders[i]?.map fun s => s.getHeaderSize false).getD 1) - 1

def numPadding (p : SchPdu) : ℕ :=
  if p.isMultibytePadding then p.remLen - 1 - p.lastSduHeaderGrowth else 0

/-- Subheader `i` is the SDU subheader written without length. -/
def isLastSdu (p : SchPdu) (i : ℕ) : Bool := !p.isMultibytePadding && p.lastSduIdx = some i

def headerSz (p : SchPdu) : ℕ :=
  (p.subheaders.mapIdx fun i s => s.getHeaderSize (p.isLastSdu i)).sum +
    if p.isMultibytePadding then 1 else p.onetwoPadding

def ces (p : SchPdu) : List SchSubh := p.subheaders.filter fun s => !isSdu s.lcid

def totalHeaderSize (p : SchPdu) : ℕ := p.headerSz + (p.ces.map SchSubh.nofBytes).sum

def headerBytes (p : SchPdu) : Bytes :=
  let ceOnly : Bool := p.lastSduIdx = none
  let multi := p.isMultibytePadding
  let indexed := p.subheaders.zipIdx
  (List.replicate p.onetwoPadding
      (SchSubh.writeSubheader Lcid.padding 0 !(decide (p.pduLen > p.onetwoPadding)))).flatten ++
    (indexed.filter fun a => !isSdu a.1.lcid).flatMap (fun a =>
      SchSubh.writeSubheader a.1.lcid a.1.nofBytes
        (ceOnly && !multi && a.2 + 1 = p.subheaders.length)) ++
    (if ceOnly then [] else (indexed.filter fun a => isSdu a.1.lcid).flatMap fun a =>
      SchSubh.writeSubheader a.1.lcid a.1.nofBytes (p.isLastSdu a.2)) ++
    (if multi then SchSubh.writeSubheader Lcid.padding p.numPadding true else []) ++
    p.ces.flatMap fun s => s.writePayload p.pduIsUl

/-- `write_packet`. The header bytes go to the front of the area that was left for them; an area
of another size keeps zeros or loses SDU bytes. -/
def writePacket (p : SchPdu) : Option Bytes :=
  if p.buffer.headroom < p.totalHeaderSize then none
  else if p.buffer.tailroom < p.numPadding then none
  else if p.totalHeaderSize + p.buffer.nBytes + p.numPadding ≠ p.pduLen then none
  else
    some (p.headerBytes ++
      (List.replicate p.totalHeaderSize 0 ++ p.buffer.msg).drop p.headerBytes.length ++
        List.replicate p.numPadding 0)

end SchPdu

structure RxSubh where
  lcid : ℕ
  nofBytes : ℕ
  deriving DecidableEq

namespace RxSubh

def sizePlusHeader (s : RxSubh) : ℕ :=
  if isSdu s.lcid then sizeHeaderSdu s.nofBytes + s.nofBytes else 1 + s.nofBytes

/-- `read_subheader` at `ptr`: subheader, extension bit and position behind it. Bytes behind the
PDU are read as zeros. -/
def readSubheader (isUl : Bool) (pdu : Bytes) (ptr : ℕ) : RxSubh × Bool × ℕ :=
  let byte := fun i => (pdu.getD i 0).toNat
  let eBit : Bool := byte ptr &&& 0x20 ≠ 0
  let lcid := byte ptr &&& 0x1F
  if isSdu lcid then
    if eBit then
      let short := byte (ptr + 1) &&& 0x7F
      if byte (ptr + 1) &&& 0x80 ≠ 0 then
        (⟨lcid, short <<< 8 ||| (byte (ptr + 2) &&& 0xFF)⟩, eBit, ptr + 3)
      else (⟨lcid, short⟩, eBit, ptr + 2)
    else (⟨lcid, 0⟩, eBit, ptr + 1)
  else (⟨lcid, sizeofCe lcid isUl⟩, eBit, ptr + 1)

/-- The do-while loop of `pdu::parse_packet`: the subheaders read and the position behind them.
Every round uses one unit of `fuel`. -/
def parseLoop (isUl : Bool) (maxSubheaders pduLen : ℕ) (pdu : Bytes) :
    ℕ → List RxSubh → ℕ → Option (List RxSubh × ℕ)
  | 0, _, _ => none
  | fuel + 1, read, ptr =>
    if read.length < maxSubheaders then
      let (s, ret, ptr') := readSubheader isUl pdu ptr
      -- "all bytes have been consumed" but another subheader is announced
      let read' := if ret ∧ ptr' ≥ pduLen then [] else read ++ [s]
      if ret ∧ read'.length + 1 < maxSubheaders ∧ pduLen > ptr' then
        parseLoop isUl maxSubheaders pduLen pdu fuel read' ptr'
      else some (read', ptr')
    else some (read, ptr)

/-- `read_payload` for each subheader: its start. -/
def payloadStarts : ℕ → List RxSubh → List (RxSubh × ℕ)
  | _, [] => []
  | ptr, s :: ss => (s, ptr) :: payloadStarts (ptr + s.nofBytes) ss

/-- `sch_pdu::parse_packet` after `init_rx`: the subheaders with the start of their payload. -/
def parsePacket (isUl : Bool) (maxSubheaders pduLen : ℕ) (pdu : Bytes) :
    Option (List (RxSubh × ℕ)) := do
  let (read, ptr) ← parseLoop isUl maxSubheaders pduLen pdu (maxSubheaders + 1) [] 0
  let starts := payloadStarts ptr read
  match starts.getLast? with
  | none => return []
  | some (last, start) =>
    let readLen := (read.dropLast.map sizePlusHeader).sum
    if readLen + 1 ≤ pduLen then
      return starts.dropLast ++ [({ last with nofBytes := pduLen - readLen - 1 }, start)]
    else return []

/-- What a reader gets: LCID, size and payload of each subheader that is not padding. -/
def readBack (pdu : Bytes) (subhs : List (RxSubh × ℕ)) : List (ℕ × ℕ × Bytes) :=
  (subhs.filter fun a => a.1.lcid ≠ Lcid.padding).map fun a =>
    (a.1.lcid, a.1.nofBytes, (pdu.drop a.2).take a.1.nofBytes)

end RxSubh
end SrsLte
