import SrsLte.RlcAmCodec
import SrsLte.RlcUmNrPdu

/-!
# Headers of RLC acknowledged mode (NR)

Headers of data PDUs and status PDUs of `rlc_am_nr`. A reader fills a structure whose fields were
zero before. Bytes behind the end of a PDU are read as zeros.
-/

namespace SrsLte

open LengthIndicators (and_low toNat_third or_high)

inductive AmNrSnSize
  | size12bits
  | size18bits
  deriving DecidableEq

def AmNrSnSize.width : AmNrSnSize → ℕ
  | size12bits => 12
  | size18bits => 18

/-- `rlc_dc_field_t`. -/
inductive RlcDcField
  | controlPdu
  | dataPdu
  deriving DecidableEq

namespace RlcDcField

def code : RlcDcField → ℕ
  | controlPdu => 0
  | dataPdu => 1

def ofCode : ℕ → RlcDcField
  | 0 => controlPdu
  | _ => dataPdu

end RlcDcField

structure AmNrPduHeader where
  dc : RlcDcField
  p : Bool
  si : NrSiField
  snSize : AmNrSnSize
  sn : ℕ
  so : ℕ
  deriving DecidableEq

namespace AmNrPduHeader

/-- `rlc_am_nr_packed_length`. -/
def packedLength (h : AmNrPduHeader) : ℕ :=
  (if h.si = .fullSdu ∨ h.si = .firstSegment then 2 else 4) +
    if h.snSize = .size18bits then 1 else 0

/-- The bytes that `rlc_am_nr_write_data_pdu_header` writes. -/
def fields (h : AmNrPduHeader) : Bytes :=
  let first := (h.dc.code &&& 0x01) <<< 7 ||| (h.p.toNat &&& 0x01) <<< 6 |||
    (h.si.code &&& 0x03) <<< 4
  (match h.snSize with
    | .size12bits =>
      [UInt8.ofNat (first ||| (h.sn >>> 8 &&& 0x0f)), UInt8.ofNat (h.sn &&& 0xff)]
    | .size18bits =>
      [UInt8.ofNat (first ||| (h.sn >>> 16 &&& 0x3)), UInt8.ofNat (h.sn >>> 8),
        UInt8.ofNat (h.sn &&& 0xff)]) ++
  if h.so ≠ 0 then [UInt8.ofNat (h.so >>> 8), UInt8.ofNat (h.so &&& 0xff)] else []

/-- `rlc_am_nr_write_data_pdu_header`. The start of the message moves by the packed length, but the
message grows only by what is written. A header byte that is not written is taken to be 0. -/
def write (h : AmNrPduHeader) (msg : Bytes) : Bytes :=
  (h.fields ++ (List.replicate h.packedLength 0 ++ msg).drop h.fields.length).take
    (h.fields.length + msg.length)

/-- The field SO in front of `rest`, if there is one, with its length. -/
def readSo (si : NrSiField) (rest : Bytes) : ℕ × ℕ :=
  if si.hasSo then (UmNrPduHeader.offset rest, 2) else (0, 0)

/-- `rlc_am_nr_read_data_pdu_header`: the header and the bytes consumed. -/
def read (snSize : AmNrSnSize) (payload : Bytes) : AmNrPduHeader × ℕ :=
  let byte := fun i => (payload.getD i 0).toNat
  let header : AmNrPduHeader :=
    { dc := RlcDcField.ofCode (byte 0 >>> 7 &&& 0x01)
      p := byte 0 >>> 6 &&& 0x01 = 1
      si := NrSiField.ofCode (byte 0 >>> 4 &&& 0x03)
      snSize := snSize
      sn := 0
      so := 0 }
  match snSize with
  | .size12bits =>
    let so := readSo header.si (payload.drop 2)
    ({ header with sn := (byte 0 &&& 0x0F) <<< 8 ||| (byte 1 &&& 0xFF), so := so.1 }, 2 + so.2)
  | .size18bits =>
    -- "Malformed PDU, reserved bits are set."
    if byte 0 &&& 0x0c ≠ 0 then (header, 0)
    else
      let so := readSo header.si (payload.drop 3)
      ({ header with
          sn := (byte 0 &&& 0x03) <<< 16 ||| (byte 1 &&& 0xFF) <<< 8 ||| (byte 2 &&& 0xFF)
          so := so.1 }, 3 + so.2)

/-- The fields are in their ranges, and an offset is given where there is a field for one. -/
structure InRange (h : AmNrPduHeader) : Prop where
  sn : h.sn < 2 ^ h.snSize.width
  so : h.so < 2 ^ 16
  noSo : h.si.hasSo = false → h.so = 0

/-- The reader recovers the header in front of the message, and written and consumed bytes are the
packed length. -/
structure ReadsBack (h : AmNrPduHeader) (msg : Bytes) : Prop where
  header : (read h.snSize (h.write msg)).1 = h
  written : h.fields.length = h.packedLength
  consumed : (read h.snSize (h.write msg)).2 = h.packedLength

theorem fixedByte : ∀ (dc : RlcDcField) (p : Bool) (si : NrSiField), ∀ high < 16,
    let x := (UInt8.ofNat ((dc.code &&& 0x01) <<< 7 ||| (p.toNat &&& 0x01) <<< 6 |||
      (si.code &&& 0x03) <<< 4 ||| high)).toNat
    RlcDcField.ofCode (x >>> 7 &&& 0x01) = dc ∧ decide (x >>> 6 &&& 0x01 = 1) = p ∧
      NrSiField.ofCode (x >>> 4 &&& 0x03) = si ∧ x &&& 0x0F = high ∧
      x &&& 0x0c = high &&& 0x0c ∧ x &&& 0x03 = high &&& 0x03 := by
  intro dc p si
  cases dc <;> cases p <;> cases si <;> decide

variable {h : AmNrPduHeader}

theorem length_fields_eq_iff (hh : h.InRange) :
    h.fields.length = h.packedLength ↔ (h.si.hasSo = true → h.so ≠ 0) := by
  obtain ⟨dc, p, si, snSize, sn, so⟩ := h
  have hso := hh.noSo
  cases si <;> cases snSize <;> by_cases hzero : so = 0 <;>
    simp_all [fields, packedLength, NrSiField.hasSo]

theorem write_eq_of_length (hlength : h.fields.length = h.packedLength) (msg : Bytes) :
    h.write msg = h.fields ++ msg := by
  rw [write, hlength, List.drop_left' List.length_replicate, ← hlength, ← List.length_append,
    List.take_length]

theorem readSo_write {si : NrSiField} {so : ℕ} (hrange : so < 2 ^ 16)
    (hno : si.hasSo = false → so = 0) (hso : si.hasSo = true → so ≠ 0) (msg : Bytes) :
    readSo si ((if so ≠ 0 then [UInt8.ofNat (so >>> 8), UInt8.ofNat (so &&& 0xff)] else []) ++
      msg) = (so, if si.hasSo then 2 else 0) := by
  rw [readSo]
  by_cases hhas : si.hasSo = true
  · rw [if_pos hhas, if_pos (hso hhas), if_pos hhas, UmNrPduHeader.offset_fields hrange]
  · rw [if_neg hhas, if_neg hhas, hno (Bool.eq_false_of_not_eq_true hhas)]

theorem read_sn18 (sn : ℕ) :
    (sn / 65536) <<< 16 ||| ((UInt8.ofNat (sn >>> 8)).toNat &&& 0xFF) <<< 8 |||
      ((UInt8.ofNat (sn &&& 0xff)).toNat &&& 0xFF) = sn := by
  have hmask : ∀ n, n &&& 0xFF = n % 256 := fun n => and_low n 8
  have hmid : (UInt8.ofNat (sn >>> 8)).toNat = sn / 256 % 256 := by
    rw [UInt8.toNat_ofNat', Nat.shiftRight_eq_div_pow]
  rw [hmid, toNat_third, hmask, hmask, Nat.mod_mod, Nat.mod_mod, Nat.or_assoc,
    or_high (show sn % 256 < 2 ^ 8 from Nat.mod_lt _ (Nat.two_pow_pos 8)),
    or_high (by omega)]
  omega

theorem read_cons12 {dc : RlcDcField} {p : Bool} {si : NrSiField} {high : ℕ} {x : UInt8}
    (hdc : RlcDcField.ofCode (x.toNat >>> 7 &&& 0x01) = dc)
    (hp : decide (x.toNat >>> 6 &&& 0x01 = 1) = p)
    (hsi : NrSiField.ofCode (x.toNat >>> 4 &&& 0x03) = si) (hsn : x.toNat &&& 0x0F = high)
    (y : UInt8) (rest : Bytes) :
    read .size12bits (x :: y :: rest) =
      (⟨dc, p, si, .size12bits, high <<< 8 ||| (y.toNat &&& 0xFF), (readSo si rest).1⟩,
        2 + (readSo si rest).2) := by
  subst hdc hp hsi hsn
  rfl

theorem read_cons18 {dc : RlcDcField} {p : Bool} {si : NrSiField} {high : ℕ} {x : UInt8}
    (hdc : RlcDcField.ofCode (x.toNat >>> 7 &&& 0x01) = dc)
    (hp : decide (x.toNat >>> 6 &&& 0x01 = 1) = p)
    (hsi : NrSiField.ofCode (x.toNat >>> 4 &&& 0x03) = si) (hreserved : x.toNat &&& 0x0c = 0)
    (hsn : x.toNat &&& 0x03 = high) (y z : UInt8) (rest : Bytes) :
    read .size18bits (x :: y :: z :: rest) =
      (⟨dc, p, si, .size18bits,
          high <<< 16 ||| (y.toNat &&& 0xFF) <<< 8 ||| (z.toNat &&& 0xFF), (readSo si rest).1⟩,
        3 + (readSo si rest).2) := by
  subst hdc hp hsi hsn
  exact if_neg fun hne => hne hreserved

theorem read_write (hh : h.InRange) (hso : h.si.hasSo = true → h.so ≠ 0) (msg : Bytes) :
    read h.snSize (h.write msg) = (h, h.packedLength) := by
  have hlength := (length_fields_eq_iff hh).mpr hso
  have hpacked : h.packedLength = (if h.snSize = .size18bits then 3 else 2) +
      if h.si.hasSo then 2 else 0 := by
    obtain ⟨dc, p, si, snSize, sn, so⟩ := h
    cases si <;> cases snSize <;> rfl
  have hback := readSo_write hh.so hh.noSo hso msg
  rw [write_eq_of_length hlength, hpacked]
  obtain ⟨dc, p, si, snSize, sn, so⟩ := h
  have hsn := hh.sn
  dsimp only at hback hsn ⊢
  rw [fields]
  dsimp only
  rw [List.append_assoc]
  cases snSize with
  | size12bits =>
    change sn < 2 ^ 12 at hsn
    have hhigh : sn >>> 8 &&& 0x0f = sn / 256 := by
      have hmask : sn >>> 8 &&& 0x0f = (sn >>> 8) % 16 := and_low _ 4
      rw [hmask, Nat.shiftRight_eq_div_pow]
      omega
    obtain ⟨hdc, hp, hsi, hlow, -, -⟩ := fixedByte dc p si (sn / 256) (by omega)
    rw [hhigh, List.cons_append, List.cons_append, List.nil_append, read_cons12 hdc hp hsi hlow,
      hback, toNat_third, AmdPduHeader.high_or_low]
    rfl
  | size18bits =>
    change sn < 2 ^ 18 at hsn
    have hmask : sn >>> 16 &&& 0x3 = (sn >>> 16) % 4 := and_low _ 2
    have hhigh : sn >>> 16 &&& 0x3 = sn / 65536 := by
      rw [hmask, Nat.shiftRight_eq_div_pow]
      omega
    have hbits : ∀ high < 4, high &&& 0x0c = 0 ∧ high &&& 0x03 = high := by decide
    obtain ⟨hreserved, hlow⟩ := hbits (sn / 65536) (by omega)
    obtain ⟨hdc, hp, hsi, -, hreservedByte, hlowByte⟩ :=
      fixedByte dc p si (sn / 65536) (by omega)
    rw [hhigh, List.cons_append, List.cons_append, List.cons_append, List.nil_append,
      read_cons18 hdc hp hsi (hreservedByte.trans hreserved) (hlowByte.trans hlow), hback,
      read_sn18]
    rfl

theorem readsBack_iff (hh : h.InRange) (msg : Bytes) :
    h.ReadsBack msg ↔ (h.si.hasSo = true → h.so ≠ 0) := by
  rw [← length_fields_eq_iff hh]
  constructor
  · intro hback
    exact hback.written
  · intro hlength
    have hread := read_write hh ((length_fields_eq_iff hh).mp hlength) msg
    exact ⟨by rw [hread], hlength, by rw [hread]⟩

end AmNrPduHeader

/-- `rlc_am_nr_status_pdu_t`, of whose NACKs only the sequence numbers are written and read. -/
structure AmNrStatusPdu where
  ackSn : ℕ
  nackSns : List ℕ
  deriving DecidableEq

namespace AmNrStatusPdu

/-- `rlc_am_nr_write_status_pdu`. -/
def write (snSize : AmNrSnSize) (s : AmNrStatusPdu) : Bytes :=
  match snSize with
  | .size12bits =>
    [UInt8.ofNat (s.ackSn >>> 8 &&& 0x0f), UInt8.ofNat (s.ackSn &&& 0xff),
      if s.nackSns.length > 0 then 0x80 else 0x00] ++
    (match s.nackSns with
      | [] => []
      | sn :: _ => [UInt8.ofNat (sn >>> 4 &&& 0xff), UInt8.ofNat (sn &&& 0xf0)])
  | .size18bits =>
    [UInt8.ofNat (s.ackSn >>> 14 &&& 0x0f), UInt8.ofNat (s.ackSn >>> 8),
      UInt8.ofNat (s.ackSn &&& 0xff)]

/-- `rlc_am_nr_read_status_pdu`. -/
def read (snSize : AmNrSnSize) (payload : Bytes) : AmNrStatusPdu :=
  let byte := fun i => (payload.getD i 0).toNat
  -- "Malformed PDU, reserved bits are set."
  if byte 0 >>> 4 &&& 0x07 ≠ 0 then { ackSn := 0, nackSns := [] }
  else
    match snSize with
    | .size12bits =>
      let ackSn := (byte 0 &&& 0x0F) <<< 8 ||| (byte 1 &&& 0xFF)
      if byte 2 &&& 0x7f ≠ 0 then { ackSn := ackSn, nackSns := [] }
      else if byte 2 &&& 0x80 ≠ 0 then
        { ackSn := ackSn, nackSns := [(byte 3 &&& 0xff) <<< 4 ||| (byte 4 &&& 0xF0) >>> 4] }
      else { ackSn := ackSn, nackSns := [] }
    | .size18bits => { ackSn := 0, nackSns := [] }

structure InRange (snSize : AmNrSnSize) (s : AmNrStatusPdu) : Prop where
  ackSn : s.ackSn < 2 ^ snSize.width
  nackSns : ∀ sn ∈ s.nackSns, sn < 2 ^ snSize.width

def Regular (snSize : AmNrSnSize) (s : AmNrStatusPdu) : Prop :=
  match snSize with
  | .size12bits => s.nackSns = [] ∨ ∃ sn, s.nackSns = [sn] ∧ sn % 16 = sn / 16 % 16
  | .size18bits => s.ackSn = 0 ∧ s.nackSns = []

theorem statusByte : ∀ high < 16, let x := (UInt8.ofNat high).toNat
    x >>> 4 &&& 0x07 = 0 ∧ x &&& 0x0F = high := by decide

theorem read_nack_iff {sn : ℕ} (hsn : sn < 2 ^ 12) :
    ((UInt8.ofNat (sn >>> 4 &&& 0xff)).toNat &&& 0xff) <<< 4 |||
        ((UInt8.ofNat (sn &&& 0xf0)).toNat &&& 0xF0) >>> 4 = sn ↔
      sn % 16 = sn / 16 % 16 := by
  have hmask : ∀ n, n &&& 0xFF = n % 256 := fun n => and_low n 8
  have hshift : sn >>> 4 = sn / 16 := Nat.shiftRight_eq_div_pow sn 4
  have hlow : ∀ n, (n &&& 0xF0) >>> 4 = n / 16 % 16 := fun n =>
    LengthIndicators.and_mask_shift n 4 4
  have hbyte : (UInt8.ofNat (sn &&& 0xf0)).toNat &&& 0xF0 = sn &&& 0xf0 := by
    have hle : sn &&& 0xf0 ≤ 0xf0 := Nat.and_le_right
    rw [LengthIndicators.toNat_ofNat (by omega), Nat.and_assoc, Nat.and_self]
  rw [hbyte, hlow, toNat_third, hmask, hshift, Nat.mod_mod,
    or_high (show sn / 16 % 16 < 2 ^ 4 from Nat.mod_lt _ (Nat.two_pow_pos 4))]
  omega

theorem read12_whole {x y : UInt8} (hcpt : x.toNat >>> 4 &&& 0x07 = 0) :
    read .size12bits [x, y, 0x00] =
      { ackSn := (x.toNat &&& 0x0F) <<< 8 ||| (y.toNat &&& 0xFF), nackSns := [] } := by
  have hreserved : (0x00 : UInt8).toNat &&& 0x7f = 0 := by decide
  have hmore : (0x00 : UInt8).toNat &&& 0x80 = 0 := by decide
  exact (if_neg fun hne => hne hcpt).trans <| (if_neg fun hne => hne hreserved).trans <|
    if_neg fun hne => hne hmore

theorem read12_nack {x y u v : UInt8} (hcpt : x.toNat >>> 4 &&& 0x07 = 0) :
    read .size12bits [x, y, 0x80, u, v] =
      { ackSn := (x.toNat &&& 0x0F) <<< 8 ||| (y.toNat &&& 0xFF)
        nackSns := [(u.toNat &&& 0xff) <<< 4 ||| (v.toNat &&& 0xF0) >>> 4] } := by
  have hreserved : (0x80 : UInt8).toNat &&& 0x7f = 0 := by decide
  have hmore : (0x80 : UInt8).toNat &&& 0x80 ≠ 0 := by decide
  exact (if_neg fun hne => hne hcpt).trans <| (if_neg fun hne => hne hreserved).trans <|
    if_pos hmore

theorem read_write_iff {snSize : AmNrSnSize} {s : AmNrStatusPdu} (hs : s.InRange snSize) :
    read snSize (s.write snSize) = s ↔ s.Regular snSize := by
  obtain ⟨ackSn, nackSns⟩ := s
  have hack := hs.ackSn
  have hnacks := hs.nackSns
  cases snSize with
  | size12bits =>
    change ackSn < 2 ^ 12 at hack
    have hhigh : ackSn >>> 8 &&& 0x0f = ackSn / 256 := by
      have hmask : ackSn >>> 8 &&& 0x0f = (ackSn >>> 8) % 16 := and_low _ 4
      rw [hmask, Nat.shiftRight_eq_div_pow]
      omega
    obtain ⟨hcpt, hlow⟩ := statusByte (ackSn / 256) (by omega)
    cases nackSns with
    | nil =>
      have hwrite : write .size12bits ⟨ackSn, []⟩ =
          [UInt8.ofNat (ackSn >>> 8 &&& 0x0f), UInt8.ofNat (ackSn &&& 0xff), 0x00] := rfl
      rw [hwrite, hhigh, read12_whole hcpt, hlow, toNat_third,
        AmdPduHeader.high_or_low]
      exact iff_of_true rfl (Or.inl rfl)
    | cons sn rest =>
      have hwrite : write .size12bits ⟨ackSn, sn :: rest⟩ =
          [UInt8.ofNat (ackSn >>> 8 &&& 0x0f), UInt8.ofNat (ackSn &&& 0xff), 0x80,
            UInt8.ofNat (sn >>> 4 &&& 0xff), UInt8.ofNat (sn &&& 0xf0)] := rfl
      have hsn : sn < 2 ^ 12 := hnacks sn List.mem_cons_self
      rw [hwrite, hhigh, read12_nack hcpt, hlow, toNat_third,
        AmdPduHeader.high_or_low, Regular, AmNrStatusPdu.mk.injEq, List.cons.injEq,
        read_nack_iff hsn]
      constructor
      · rintro ⟨-, hnibble, hrest⟩
        exact Or.inr ⟨sn, by rw [← hrest], hnibble⟩
      · rintro (hnil | ⟨sn', hsingle, hnibble⟩)
        · cases hnil
        · cases hsingle
          exact ⟨rfl, hnibble, rfl⟩
  | size18bits =>
    have hread : read .size18bits (write .size18bits ⟨ackSn, nackSns⟩) = ⟨0, []⟩ := by
      rw [read]
      dsimp only
      split_ifs <;> rfl
    rw [hread, Regular, AmNrStatusPdu.mk.injEq, eq_comm, eq_comm (a := [])]

end AmNrStatusPdu

/-- A data PDU header and a status PDU are read back if and only if they meet their conditions. -/
theorem amNr_readsBack_iff (h : AmNrPduHeader) (hh : h.InRange) (msg : Bytes) (snSize : AmNrSnSize)
    (s : AmNrStatusPdu) (hs : s.InRange snSize) :
    (h.ReadsBack msg ↔ (h.si.hasSo = true → h.so ≠ 0)) ∧
      (AmNrStatusPdu.read snSize (s.write snSize) = s ↔ s.Regular snSize) :=
  ⟨AmNrPduHeader.readsBack_iff hh msg, AmNrStatusPdu.read_write_iff hs⟩

/-- The last segment of an SDU, and a NACK of SN 273. -/
theorem amNr_readsBack_nack273 :
    (AmNrPduHeader.ReadsBack ⟨.dataPdu, true, .lastSegment, .size18bits, 131327, 514⟩ [0x11] ↔
      (NrSiField.lastSegment.hasSo = true → 514 ≠ 0)) ∧
    (AmNrStatusPdu.read .size12bits (AmNrStatusPdu.write .size12bits ⟨2065, [273]⟩) =
        ⟨2065, [273]⟩ ↔ AmNrStatusPdu.Regular .size12bits ⟨2065, [273]⟩) :=
  amNr_readsBack_iff _ ⟨by decide, by decide, by decide⟩ _ _ _ ⟨by decide, by decide⟩

/-- A NACK of SN 1 is read as one of SN 0. -/
theorem nack_one_read_as_zero : ¬ ∀ (snSize : AmNrSnSize) (s : AmNrStatusPdu),
    s.InRange snSize → AmNrStatusPdu.read snSize (s.write snSize) = s := by
  intro h
  have hread := h .size12bits ⟨2, [1]⟩ ⟨by decide, by decide⟩
  exact absurd hread (by decide)

end SrsLte
