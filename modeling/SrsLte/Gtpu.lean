import SrsLte.BitString
import SrsLte.ByteBuffer
import SrsLte.IntHelpers
import SrsLte.Word

/-!
# GTP-U headers

`gtpu_write_header` and `gtpu_read_header`. The pointer of both stays at the TEID when the
optional fields are written and read.
-/

namespace SrsLte

structure GtpuHeader where
  flags : UInt8
  messageType : UInt8
  length : UInt16
  teid : UInt32
  seqNumber : UInt16
  nPdu : UInt8
  nextExtHdrType : UInt8
  deriving DecidableEq

namespace Gtpu

def baseHeaderLen : ℕ := 8
def extendedHeaderLen : ℕ := 12

def flagsVersionMask : UInt8 := 0xE0
def flagsVersionV1 : UInt8 := 0x20
def flagsGtpProtocol : UInt8 := 0x10
def flagsExtendedHdr : UInt8 := 0x04
def flagsSequence : UInt8 := 0x02
def flagsPacketNum : UInt8 := 0x01

def msgEchoRequest : UInt8 := 1
def msgEchoResponse : UInt8 := 2
def msgDataPdu : UInt8 := 255

/-- `gtpu_supported_flags_check`. -/
def supportedFlagsCheck (flags : UInt8) : Bool :=
  flags &&& flagsVersionMask = flagsVersionV1 ∧ flags &&& flagsGtpProtocol ≠ 0 ∧
    flags &&& flagsExtendedHdr = 0 ∧ flags &&& flagsPacketNum = 0

/-- `gtpu_supported_msg_type_check`. -/
def supportedMsgTypeCheck (messageType : UInt8) : Bool :=
  messageType = msgDataPdu ∨ messageType = msgEchoRequest ∨ messageType = msgEchoResponse

def hasOptional (flags : UInt8) : Bool :=
  flags &&& (flagsExtendedHdr ||| flagsSequence ||| flagsPacketNum) ≠ 0

def headerLen (flags : UInt8) : ℕ :=
  if hasOptional flags then extendedHeaderLen else baseHeaderLen

def setBytes (area : Bytes) (ptr : ℕ) (bytes : Bytes) : Bytes :=
  area.take ptr ++ bytes ++ area.drop (ptr + bytes.length)

/-- The header area after writing; `stale` is what the headroom held there. -/
def headerBytes (header : GtpuHeader) (stale : ℕ → UInt8) : Bytes :=
  let area := (List.range (headerLen header.flags)).map stale
  let area := setBytes area 0 [header.flags]
  let area := setBytes area 1 [header.messageType]
  let area := setBytes area 2 (IntHelpers.uint16ToUint8 header.length)
  let area := setBytes area 4 (IntHelpers.uint32ToUint8 header.teid)
  if hasOptional header.flags then
    let seq := if header.flags &&& flagsSequence ≠ 0 then header.seqNumber else 0
    let area := setBytes area 4 (IntHelpers.uint16ToUint8 seq)
    let area :=
      if header.flags &&& flagsPacketNum ≠ 0 then setBytes area 6 [header.nPdu] else area
    setBytes area 7
      [if header.flags &&& flagsExtendedHdr ≠ 0 then header.nextExtHdrType else 0]
  else area

theorem area_extended (stale : ℕ → UInt8) : (List.range extendedHeaderLen).map stale =
    [stale 0, stale 1, stale 2, stale 3, stale 4, stale 5, stale 6, stale 7, stale 8, stale 9,
      stale 10, stale 11] := rfl

theorem headerBytes_base {header : GtpuHeader} (h : hasOptional header.flags = false)
    (stale : ℕ → UInt8) : headerBytes header stale = [header.flags, header.messageType] ++
      IntHelpers.uint16ToUint8 header.length ++ IntHelpers.uint32ToUint8 header.teid := by
  have harea : (List.range baseHeaderLen).map stale =
      [stale 0, stale 1, stale 2, stale 3, stale 4, stale 5, stale 6, stale 7] := rfl
  unfold headerBytes headerLen
  simp only [h, Bool.false_eq_true, if_false, harea]
  rfl

/-- With the sequence number alone two bytes of the TEID are overwritten by it and the last one by
a zero, and the four bytes behind keep what the headroom held. -/
theorem headerBytes_sequence {header : GtpuHeader} (h : hasOptional header.flags = true)
    (hpn : header.flags &&& flagsPacketNum = 0) (hext : header.flags &&& flagsExtendedHdr = 0)
    (hseq : header.flags &&& flagsSequence ≠ 0) (stale : ℕ → UInt8) :
    headerBytes header stale = [header.flags, header.messageType] ++
      IntHelpers.uint16ToUint8 header.length ++ IntHelpers.uint16ToUint8 header.seqNumber ++
        [UInt8.ofNat ((header.teid.toNat >>> 8) &&& 0xFF), 0,
          stale 8, stale 9, stale 10, stale 11] := by
  unfold headerBytes headerLen
  simp only [h, if_true, area_extended, hpn, hext, hseq, ne_eq, not_true, not_false_eq_true,
    if_false]
  rfl

theorem length_headerBytes (header : GtpuHeader) (stale : ℕ → UInt8) :
    (headerBytes header stale).length = headerLen header.flags := by
  cases h : hasOptional header.flags with
  | false =>
    rw [headerBytes_base h, headerLen, h]
    rfl
  | true =>
    unfold headerBytes headerLen
    simp only [h, if_true, area_extended]
    split_ifs <;>
      simp [setBytes, IntHelpers.uint16ToUint8, IntHelpers.uint32ToUint8, extendedHeaderLen]

/-- `gtpu_write_header`: the header as it is left and the PDU. -/
def writeHeader (header : GtpuHeader) (pdu : ByteBuffer) (stale : ℕ → UInt8) :
    Option (GtpuHeader × ByteBuffer) :=
  if ¬ supportedFlagsCheck header.flags then none
  else if ¬ supportedMsgTypeCheck header.messageType then none
  else if hroom : pdu.headroom < headerLen header.flags then none
  else
    let left := if hasOptional header.flags ∧ header.flags &&& flagsPacketNum = 0 then
      { header with nPdu := 0 } else header
    some (left, pdu.prepend (headerBytes header stale)
      ((length_headerBytes header stale).trans_le (Nat.not_lt.mp hroom)))

/-- What `gtpu_read_header` returns: its result, the header, the bytes stripped from the front of
the PDU and `N_bytes`. -/
structure Read where
  ok : Bool
  header : GtpuHeader
  stripped : ℕ
  nBytes : ℕ

/-- `gtpu_read_header` on a PDU in memory, with the header of the caller. -/
def readHeader (mem : ℕ → UInt8) (nBytes : ℕ) (header : GtpuHeader) : Read :=
  let header := { header with
    flags := mem 0
    messageType := mem 1
    length := IntHelpers.uint8ToUint16 mem 2
    teid := IntHelpers.uint8ToUint32 mem 4 }
  if ¬ supportedFlagsCheck header.flags then ⟨false, header, 0, nBytes⟩
  else if ¬ supportedMsgTypeCheck header.messageType then ⟨false, header, 0, nBytes⟩
  else if hasOptional header.flags then
    let header := { header with
      seqNumber := IntHelpers.uint8ToUint16 mem 4
      nPdu := mem 6
      nextExtHdrType := mem 7 }
    ⟨true, header, extendedHeaderLen, Word.sub32 nBytes extendedHeaderLen⟩
  else ⟨true, header, baseHeaderLen, Word.sub32 nBytes baseHeaderLen⟩

end Gtpu
end SrsLte

/-!
A header without sequence number is read back. With one, the upper half of the TEID is replaced by
the sequence number and its last byte by zero. The reader takes eight or twelve bytes off a PDU of
any length.
-/

namespace SrsLte
namespace Gtpu

theorem hasOptional_eq {flags : UInt8} (h : supportedFlagsCheck flags = true) :
    hasOptional flags = decide (flags &&& flagsSequence ≠ 0) ∧
      flags &&& flagsPacketNum = 0 ∧ flags &&& flagsExtendedHdr = 0 := by
  have hall : ∀ n < 256, supportedFlagsCheck (UInt8.ofNat n) = true →
      hasOptional (UInt8.ofNat n) = decide (UInt8.ofNat n &&& flagsSequence ≠ 0) ∧
        UInt8.ofNat n &&& flagsPacketNum = 0 ∧ UInt8.ofNat n &&& flagsExtendedHdr = 0 := by
    decide +kernel
  exact OctetBits.forall_octet (P := fun flags => supportedFlagsCheck flags = true →
    hasOptional flags = decide (flags &&& flagsSequence ≠ 0) ∧
      flags &&& flagsPacketNum = 0 ∧ flags &&& flagsExtendedHdr = 0) hall flags h

theorem writeHeader_eq_some {header left : GtpuHeader} {pdu written : ByteBuffer}
    {stale : ℕ → UInt8} (h : writeHeader header pdu stale = some (left, written)) :
    supportedFlagsCheck header.flags = true ∧ supportedMsgTypeCheck header.messageType = true ∧
      written.msg = headerBytes header stale ++ pdu.msg := by
  unfold writeHeader at h
  split_ifs at h with hflags htype hroom
  all_goals
    obtain ⟨-, rfl⟩ := Prod.mk.inj (Option.some.inj h)
    exact ⟨hflags, htype, rfl⟩

section Read

variable {bytes rest : Bytes} {b0 b1 b2 b3 b4 b5 b6 b7 : UInt8}

theorem memory_eight (behind : ℕ → UInt8)
    (h : bytes = b0 :: b1 :: b2 :: b3 :: b4 :: b5 :: b6 :: b7 :: rest) :
    memory bytes behind 0 = b0 ∧ memory bytes behind 1 = b1 ∧ memory bytes behind 2 = b2 ∧
      memory bytes behind 3 = b3 ∧ memory bytes behind 4 = b4 ∧ memory bytes behind 5 = b5 ∧
      memory bytes behind 6 = b6 ∧ memory bytes behind 7 = b7 := by
  have h0 : bytes.drop 0 = b0 :: _ := h
  have h1 := drop_succ_of_drop h0
  have h2 := drop_succ_of_drop h1
  have h3 := drop_succ_of_drop h2
  have h4 := drop_succ_of_drop h3
  have h5 := drop_succ_of_drop h4
  have h6 := drop_succ_of_drop h5
  have h7 := drop_succ_of_drop h6
  exact ⟨memory_of_drop h0, memory_of_drop h1, memory_of_drop h2, memory_of_drop h3,
    memory_of_drop h4, memory_of_drop h5, memory_of_drop h6, memory_of_drop h7⟩

end Read

/-- The fields that the flags of the header mark as present are read from the written PDU, and the
payload is left. -/
structure ReadsBack (header : GtpuHeader) (payload written : Bytes) (r : Read) : Prop where
  ok : r.ok = true
  flags : r.header.flags = header.flags
  messageType : r.header.messageType = header.messageType
  length : r.header.length = header.length
  teid : r.header.teid = header.teid
  seqNumber : header.flags &&& flagsSequence ≠ 0 → r.header.seqNumber = header.seqNumber
  nPdu : header.flags &&& flagsPacketNum ≠ 0 → r.header.nPdu = header.nPdu
  nextExtHdrType : header.flags &&& flagsExtendedHdr ≠ 0 →
    r.header.nextExtHdrType = header.nextExtHdrType
  rest : written.drop r.stripped = payload
  nBytes : r.nBytes = payload.length

/-- There is no sequence number, or it is the upper half of a TEID whose last byte is zero. -/
def TeidKept (header : GtpuHeader) : Prop :=
  header.flags &&& flagsSequence = 0 ∨
    header.teid.toNat / 2 ^ 16 = header.seqNumber.toNat ∧ header.teid.toNat % 2 ^ 8 = 0

instance : DecidablePred TeidKept := fun _ => inferInstanceAs (Decidable (_ ∨ _))

section Accepted

variable {mem : ℕ → UInt8} {nBytes : ℕ} (hflags : supportedFlagsCheck (mem 0) = true)
  (htype : supportedMsgTypeCheck (mem 1) = true)

include hflags htype

theorem readHeader_base (h : hasOptional (mem 0) = false) (initial : GtpuHeader) :
    readHeader mem nBytes initial =
      ⟨true, { initial with
        flags := mem 0
        messageType := mem 1
        length := IntHelpers.uint8ToUint16 mem 2
        teid := IntHelpers.uint8ToUint32 mem 4 }, 8, Word.sub32 nBytes 8⟩ := by
  unfold readHeader
  dsimp only
  rw [if_neg (not_not_intro hflags), if_neg (not_not_intro htype), h]
  rfl

theorem readHeader_optional (h : hasOptional (mem 0) = true) (initial : GtpuHeader) :
    readHeader mem nBytes initial =
      ⟨true, { initial with
        flags := mem 0
        messageType := mem 1
        length := IntHelpers.uint8ToUint16 mem 2
        teid := IntHelpers.uint8ToUint32 mem 4
        seqNumber := IntHelpers.uint8ToUint16 mem 4
        nPdu := mem 6
        nextExtHdrType := mem 7 }, 12, Word.sub32 nBytes 12⟩ := by
  unfold readHeader
  dsimp only
  rw [if_neg (not_not_intro hflags), if_neg (not_not_intro htype), h]
  rfl

end Accepted

section RoundTrip

variable {header left initial : GtpuHeader} {pdu written : ByteBuffer} {stale behind : ℕ → UInt8}

theorem readsBack_iff (h : writeHeader header pdu stale = some (left, written))
    (initial : GtpuHeader) (behind : ℕ → UInt8) :
    ReadsBack header pdu.msg written.msg
      (readHeader (memory written.msg behind) written.nBytes initial) ↔ TeidKept header := by
  obtain ⟨hflags, htype, hmsg⟩ := writeHeader_eq_some h
  obtain ⟨hoptional, hpn, hext⟩ := hasOptional_eq hflags
  have hfits := written.fits
  have hmax : maxBufferSizeBytes < 2 ^ 32 := by decide
  have hback {front : Bytes} {r : GtpuHeader} (hmsg : written.msg = front ++ pdu.msg)
      (hf : r.flags = header.flags) (ht : r.messageType = header.messageType)
      (hl : r.length = header.length) (hteid : r.teid = header.teid)
      (hs : header.flags &&& flagsSequence ≠ 0 → r.seqNumber = header.seqNumber) :
      ReadsBack header pdu.msg written.msg
        ⟨true, r, front.length, Word.sub32 written.nBytes front.length⟩ := by
    have hbytes : written.nBytes = front.length + pdu.msg.length := by
      unfold ByteBuffer.nBytes
      rw [hmsg, List.length_append]
    exact {
      ok := rfl
      flags := hf
      messageType := ht
      length := hl
      teid := hteid
      seqNumber := hs
      nPdu := fun h => absurd hpn h
      nextExtHdrType := fun h => absurd hext h
      rest := by rw [hmsg, List.drop_left]
      nBytes := by
        unfold ByteBuffer.nBytes at hbytes ⊢
        dsimp only
        rw [Word.sub32_of_le (by omega) (by omega)]
        omega }
  by_cases hseq : header.flags &&& flagsSequence = 0
  · have hbase : hasOptional header.flags = false := by
      rw [hoptional, hseq]
      rfl
    rw [headerBytes_base hbase] at hmsg
    obtain ⟨h0, h1, h2, h3, h4, h5, h6, h7⟩ := memory_eight behind hmsg
    refine ⟨fun _ => Or.inl hseq, fun _ => ?_⟩
    rw [readHeader_base (by rw [h0]; exact hflags) (by rw [h1]; exact htype)
      (by rw [h0]; exact hbase)]
    exact hback hmsg h0 h1 (IntHelpers.uint8ToUint16_eq h2 h3)
      (IntHelpers.uint8ToUint32_eq h4 h5 h6 h7) fun h => absurd hseq h
  · have hextended : hasOptional header.flags = true := by
      rw [hoptional]
      exact decide_eq_true hseq
    rw [headerBytes_sequence hextended hpn hext hseq] at hmsg
    obtain ⟨h0, h1, h2, h3, h4, h5, h6, h7⟩ := memory_eight behind hmsg
    rw [readHeader_optional (by rw [h0]; exact hflags) (by rw [h1]; exact htype)
      (by rw [h0]; exact hextended)]
    have hteid : IntHelpers.uint8ToUint32 (memory written.msg behind) 4 = header.teid ↔
        TeidKept header := by
      have hseqLt := header.seqNumber.toNat_lt
      have hteidLt := header.teid.toNat_lt
      rw [TeidKept, or_iff_right hseq, ← UInt32.toNat_inj, IntHelpers.toNat_uint8ToUint32, h4, h5,
        h6, h7, IntHelpers.toNat_byte, IntHelpers.toNat_lowByte, IntHelpers.toNat_byte]
      change _ + _ + _ + 0 = _ ↔ _
      omega
    rw [← hteid]
    exact ⟨fun h => h.teid, fun hteid => hback hmsg h0 h1
      (IntHelpers.uint8ToUint16_eq h2 h3) hteid fun _ => IntHelpers.uint8ToUint16_eq h4 h5⟩

end RoundTrip

/-- What is read does not depend on what follows the received bytes, and no more of them are
stripped than were received. -/
def ReadsInside (received : Bytes) : Prop :=
  ∀ (initial : GtpuHeader) (behind : ℕ → UInt8),
    (∀ behind', readHeader (memory received behind) received.length initial =
      readHeader (memory received behind') received.length initial) ∧
    (readHeader (memory received behind) received.length initial).stripped ≤ received.length

/-- The mandatory fields were received, and the optional ones too where an accepted header has
them. -/
def LongEnough (received : Bytes) : Prop :=
  8 ≤ received.length ∧
    (supportedFlagsCheck (received.getD 0 0) = true →
      supportedMsgTypeCheck (received.getD 1 0) = true →
      received.getD 0 0 &&& flagsSequence ≠ 0 → 12 ≤ received.length)

instance : DecidablePred LongEnough := fun _ => inferInstanceAs (Decidable (_ ∧ _))

section Inside

variable {mem mem' : ℕ → UInt8} {received : Bytes}

theorem teid_readHeader (mem : ℕ → UInt8) (nBytes : ℕ) (initial : GtpuHeader) :
    (readHeader mem nBytes initial).header.teid = IntHelpers.uint8ToUint32 mem 4 := by
  unfold readHeader
  dsimp only
  split_ifs <;> rfl

theorem readHeader_congr (h : ∀ i < 8, mem i = mem' i) (nBytes : ℕ) (initial : GtpuHeader) :
    readHeader mem nBytes initial = readHeader mem' nBytes initial := by
  unfold readHeader IntHelpers.uint8ToUint16 IntHelpers.uint8ToUint32
  rw [h 0 (by decide), h 1 (by decide), h 2 (by decide), h (2 + 1) (by decide), h 4 (by decide),
    h (4 + 1) (by decide), h (4 + 2) (by decide), h (4 + 3) (by decide)]

theorem memory_congr (received : Bytes) (behind behind' : ℕ → UInt8) {i : ℕ}
    (hi : i < received.length) : memory received behind i = memory received behind' i := by
  unfold memory
  rw [dif_pos hi, dif_pos hi]

theorem memory_eq_getD (received : Bytes) (behind : ℕ → UInt8) {i : ℕ}
    (hi : i < received.length) : memory received behind i = received.getD i 0 := by
  rw [memory_congr received behind (fun _ => 0) hi, memory_zero_eq_getD]

theorem eight_le_of_readsInside (h : ReadsInside received) : 8 ≤ received.length := by
  by_contra hshort
  have hbehind : ∀ b : UInt8, memory received (fun _ => b) 7 = b := fun b =>
    dif_neg (by omega)
  have heq := (h ⟨0, 0, 0, 0, 0, 0, 0⟩ fun _ => 0).1 fun _ => 1
  have hteid := congrArg (fun r : Read => r.header.teid.toNat % 256) heq
  simp only [teid_readHeader, IntHelpers.toNat_uint8ToUint32] at hteid
  have hlast : ∀ b : UInt8, memory received (fun _ => b) (4 + 3) = b := hbehind
  rw [hlast, hlast] at hteid
  change (_ + _ + _ + 0) % 256 = (_ + _ + _ + 1) % 256 at hteid
  omega

theorem readsInside_iff (received : Bytes) : ReadsInside received ↔ LongEnough received := by
  constructor
  · intro h
    have height := eight_le_of_readsInside h
    refine ⟨height, fun hflags htype hseq => ?_⟩
    have h0 := memory_eq_getD received (fun _ => 0) (show 0 < received.length by omega)
    have h1 := memory_eq_getD received (fun _ => 0) (show 1 < received.length by omega)
    have hoptional : hasOptional (received.getD 0 0) = true := by
      rw [(hasOptional_eq hflags).1]
      exact decide_eq_true hseq
    have hstripped := (h ⟨0, 0, 0, 0, 0, 0, 0⟩ fun _ => 0).2
    rw [readHeader_optional (by rw [h0]; exact hflags) (by rw [h1]; exact htype)
      (by rw [h0]; exact hoptional)] at hstripped
    exact hstripped
  · rintro ⟨height, htwelve⟩ initial behind
    refine ⟨fun behind' => readHeader_congr (fun i hi => memory_congr received behind behind'
      (by omega)) _ _, ?_⟩
    have h0 := memory_eq_getD received behind (show 0 < received.length by omega)
    have h1 := memory_eq_getD received behind (show 1 < received.length by omega)
    unfold readHeader
    dsimp only
    rw [h0, h1]
    split_ifs with hflags htype hoptional
    · have hseq : received.getD 0 0 &&& flagsSequence ≠ 0 := by
        rw [(hasOptional_eq hflags).1] at hoptional
        exact of_decide_eq_true hoptional
      exact htwelve hflags htype hseq
    · exact height
    · exact Nat.zero_le _
    · exact Nat.zero_le _

end Inside

/-- An accepted header and its payload are read back exactly when the TEID survives, and reading a
string stays inside it exactly when the string is long enough. -/
theorem codec_iff {header left : GtpuHeader} {pdu written : ByteBuffer} {stale : ℕ → UInt8}
    (h : writeHeader header pdu stale = some (left, written)) (initial : GtpuHeader)
    (behind : ℕ → UInt8) (received : Bytes) :
    (ReadsBack header pdu.msg written.msg
        (readHeader (memory written.msg behind) written.nBytes initial) ∧ ReadsInside received) ↔
      TeidKept header ∧ LongEnough received := by
  rw [readsBack_iff h initial behind, readsInside_iff]

/-- A data PDU without optional fields. -/
theorem data_pdu_read_back :
    ReadsBack ⟨0x30, 255, 1, 0x12345678, 0, 0, 0⟩ [0xAA]
        [0x30, 255, 0, 1, 0x12, 0x34, 0x56, 0x78, 0xAA]
        (readHeader (memory [0x30, 255, 0, 1, 0x12, 0x34, 0x56, 0x78, 0xAA] fun _ => 0) 9
          ⟨0, 0, 0, 0, 0, 0, 0⟩) ∧
      ReadsInside [0x30, 255, 0, 1, 0x12, 0x34, 0x56, 0x78, 0xAA] := by
  have hfits : 12 + [(0xAA : UInt8)].length ≤ maxBufferSizeBytes := by decide
  have hwritten : 4 + [(0x30 : UInt8), 255, 0, 1, 0x12, 0x34, 0x56, 0x78, 0xAA].length ≤
    maxBufferSizeBytes := by decide
  have h : writeHeader ⟨0x30, 255, 1, 0x12345678, 0, 0, 0⟩ ⟨12, [0xAA], hfits⟩ (fun _ => 0) =
      some (⟨0x30, 255, 1, 0x12345678, 0, 0, 0⟩,
        ⟨4, [0x30, 255, 0, 1, 0x12, 0x34, 0x56, 0x78, 0xAA], hwritten⟩) := rfl
  exact (codec_iff h ⟨0, 0, 0, 0, 0, 0, 0⟩ (fun _ => 0)
    [0x30, 255, 0, 1, 0x12, 0x34, 0x56, 0x78, 0xAA]).mpr ⟨by decide, by decide⟩

/-- The sequence number 1 is written over the upper half of the TEID. -/
theorem sequence_number_overwrites_teid :
    ¬ ∀ (header left : GtpuHeader) (pdu written : ByteBuffer) (stale : ℕ → UInt8),
      writeHeader header pdu stale = some (left, written) →
      ∀ (initial : GtpuHeader) (behind : ℕ → UInt8) (received : Bytes),
        ReadsBack header pdu.msg written.msg
          (readHeader (memory written.msg behind) written.nBytes initial) ∧
            ReadsInside received := by
  intro h
  have hfits : 12 + [(0xAA : UInt8)].length ≤ maxBufferSizeBytes := by decide
  have hwritten : 0 + [(0x32 : UInt8), 255, 0, 5, 0, 1, 0x56, 0, 0, 0, 0, 0, 0xAA].length ≤
    maxBufferSizeBytes := by decide
  have hwrite : writeHeader ⟨0x32, 255, 5, 0x12345678, 1, 0, 0⟩ ⟨12, [0xAA], hfits⟩ (fun _ => 0) =
      some (⟨0x32, 255, 5, 0x12345678, 1, 0, 0⟩,
        ⟨0, [0x32, 255, 0, 5, 0, 1, 0x56, 0, 0, 0, 0, 0, 0xAA], hwritten⟩) := rfl
  have hback := (h _ _ _ _ _ hwrite ⟨0, 0, 0, 0, 0, 0, 0⟩ (fun _ => 0) []).1
  have hkept := (readsBack_iff hwrite _ _).mp hback
  revert hkept
  decide

end Gtpu
end SrsLte
