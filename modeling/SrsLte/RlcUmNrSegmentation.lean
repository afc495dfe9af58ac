import SrsLte.RlcUmNrPdu
import SrsLte.RlcUmNrTransmission

/-!
# Segmentation of SDUs by the NR UM transmitter

The PDUs that were built for an SDU are kept next to the transmitter, each with its grant. They
carry the SDU as long as `next_so` is the offset of the segment that is sent, the grant has two more
bytes for that offset, and no full SDU is sent with a sequence number of 12 bits.
-/

namespace SrsLte

open UmNrPduHeader (readSn packedLength)
namespace RlcUmNrTx

open EventRun (Along along_congr)

structure GrantedPdu where
  pdu : Bytes
  grant : ℕ

namespace GrantedPdu

def header (snSize : UmNrSnSize) (p : GrantedPdu) : UmNrPduHeader :=
  UmNrPduHeader.read snSize p.pdu

def payload (snSize : UmNrSnSize) (p : GrantedPdu) : Bytes :=
  p.pdu.drop (p.header snSize).packedLength

end GrantedPdu

/-- The segmentation info of the bytes from `start` to `stop` of an SDU. -/
def siOf (start stop length : ℕ) : NrSiField :=
  if start = 0 then if stop = length then .fullSdu else .firstSegment
  else if stop = length then .lastSegment else .neitherFirstNorLastSegment

/-- The PDU has the header of a segment at the offset `start`, and fits into its grant. -/
structure Carries (snSize : UmNrSnSize) (sn length start : ℕ) (p : GrantedPdu) : Prop where
  size : p.pdu.length ≤ p.grant
  si : (p.header snSize).si = siOf start (start + (p.payload snSize).length) length
  so : (p.header snSize).si.hasSo = true → (p.header snSize).so = start
  sn : (p.header snSize).si ≠ .fullSdu → (p.header snSize).sn = sn

def CarryFrom (snSize : UmNrSnSize) (sn length : ℕ) : ℕ → List GrantedPdu → Prop
  | _, [] => True
  | start, p :: ps =>
    Carries snSize sn length start p ∧
      CarryFrom snSize sn length (start + (p.payload snSize).length) ps

def payloads (snSize : UmNrSnSize) (ps : List GrantedPdu) : Bytes :=
  ps.flatMap (GrantedPdu.payload snSize)

/-- The PDUs carry the SDU up to `rest`, with one sequence number. -/
def Segments (snSize : UmNrSnSize) (sdu : Bytes) (ps : List GrantedPdu) (rest : Bytes) : Prop :=
  payloads snSize ps ++ rest = sdu ∧ ∃ sn, CarryFrom snSize sn sdu.length 0 ps

variable {snSize : UmNrSnSize} {sn length : ℕ} {p : GrantedPdu} {ps : List GrantedPdu}

theorem payloads_append : payloads snSize (ps ++ [p]) = payloads snSize ps ++ p.payload snSize := by
  rw [payloads, List.flatMap_append, List.flatMap_singleton, payloads]

theorem carryFrom_append (start : ℕ) : CarryFrom snSize sn length start (ps ++ [p]) ↔
    CarryFrom snSize sn length start ps ∧
      Carries snSize sn length (start + (payloads snSize ps).length) p := by
  induction ps generalizing start with
  | nil => exact ⟨fun h => ⟨trivial, h.1⟩, fun h => ⟨h.2, trivial⟩⟩
  | cons q ps ih =>
    rw [List.cons_append, CarryFrom, ih, CarryFrom, and_assoc, payloads, payloads,
      List.flatMap_cons, List.length_append, Nat.add_assoc]

theorem segments_append {sdu data rest : Bytes}
    (hsdu : payloads snSize ps ++ (data ++ rest) = sdu) :
    Segments snSize sdu (ps ++ [p]) rest ↔ p.payload snSize = data ∧
      ∃ sn, CarryFrom snSize sn sdu.length 0 ps ∧
        Carries snSize sn sdu.length (payloads snSize ps).length p := by
  have hdata : payloads snSize ps ++ p.payload snSize ++ rest = sdu ↔ p.payload snSize = data := by
    rw [← hsdu, List.append_assoc, List.append_right_inj, List.append_left_inj]
  rw [Segments, payloads_append, hdata]
  refine and_congr_right fun _ => exists_congr fun sn => ?_
  rw [carryFrom_append, Nat.zero_add]

/-- A transmitter with the SDU under way and the PDUs built for it, and with the SDUs that it has
sent completely. -/
structure Segmenting where
  tx : RlcUmNrTx
  sdu : Bytes
  pdus : List GrantedPdu
  done : List (Bytes × List GrantedPdu)

namespace Segmenting

def start (snSize : UmNrSnSize) (txQueueLength : ℕ) : Segmenting where
  tx := configure snSize txQueueLength
  sdu := []
  pdus := []
  done := []

def current (t : Segmenting) : Bytes :=
  if t.tx.txSdu = none then t.tx.txSduQueue.headD [] else t.sdu

def record (t : Segmenting) (tx : RlcUmNrTx) (p : GrantedPdu) : Segmenting :=
  if tx.txSdu = none then
    { tx := tx, sdu := [], pdus := [], done := t.done ++ [(t.current, t.pdus ++ [p])] }
  else { t with tx := tx, sdu := t.current, pdus := t.pdus ++ [p] }

def step (t : Segmenting) : Event → Segmenting
  | .writeSdu sdu => { t with tx := t.tx.writeSdu sdu }
  | .readPdu nofBytes =>
    match t.tx.buildDataPdu nofBytes with
    | (tx, some pdu) => t.record tx ⟨pdu, nofBytes⟩
    | (tx, none) => { t with tx := tx }

/-- The SDUs sent completely are carried by their PDUs, and so is the one under way up to what is
left of it. -/
structure Sound (t : Segmenting) : Prop where
  done : ∀ d ∈ t.done, Segments t.tx.snSize d.1 d.2 []
  underWay : Segments t.tx.snSize t.sdu t.pdus (t.tx.txSdu.getD [])

def Regular (t : Segmenting) : Event → Prop
  | .writeSdu _ => True
  | .readPdu nofBytes =>
    t.tx.headLen + 1 < min nofBytes bufferTailroom →
      match t.tx.txSdu, t.tx.txSduQueue with
      | some rest, _ =>
        t.tx.nextSo % 2 ^ 16 = t.sdu.length - rest.length ∧
          t.tx.headLen + 2 + t.tx.toMove nofBytes rest ≤ nofBytes
      | none, sdu :: _ =>
        t.tx.toMove nofBytes sdu = sdu.length → t.tx.snSize = .size6bits ∨ sdu = []
      | none, [] => True

structure Inv (t : Segmenting) : Prop where
  txNext : t.tx.txNext < 64
  done : ∀ d ∈ t.done, Segments t.tx.snSize d.1 d.2 []
  idle : t.tx.txSdu = none → t.sdu = [] ∧ t.pdus = []
  underWay : ∀ rest, t.tx.txSdu = some rest → rest ≠ [] ∧ rest.length < t.sdu.length ∧
    payloads t.tx.snSize t.pdus ++ rest = t.sdu
  carry : CarryFrom t.tx.snSize (readSn t.tx.snSize t.tx.txNext) t.sdu.length 0 t.pdus

variable {t : Segmenting}

theorem inv_start (snSize : UmNrSnSize) (txQueueLength : ℕ) : (start snSize txQueueLength).Inv where
  txNext := Nat.zero_lt_succ 63
  done d h := absurd h List.not_mem_nil
  idle _ := ⟨rfl, rfl⟩
  underWay rest h := by cases h
  carry := trivial

theorem Inv.sound (h : t.Inv) : t.Sound where
  done := h.done
  underWay := by
    refine ⟨?_, _, h.carry⟩
    cases hrest : t.tx.txSdu with
    | none =>
      obtain ⟨hsdu, hpdus⟩ := h.idle hrest
      rw [hsdu, hpdus]
      rfl
    | some rest => exact (h.underWay rest hrest).2.2

theorem Inv.carry_current (h : t.Inv) : CarryFrom t.tx.snSize
    (readSn t.tx.snSize t.tx.txNext) t.current.length 0 t.pdus := by
  rw [current]
  split_ifs with hnone
  · rw [(h.idle hnone).2]
    trivial
  · exact h.carry

theorem record_spec (h : t.Inv) {tx : RlcUmNrTx} {p : GrantedPdu} {data : Bytes} {cond : Prop}
    (hsize : tx.snSize = t.tx.snSize) (hnext : tx.txNext < 64)
    (hcurrent : payloads t.tx.snSize t.pdus ++ (data ++ tx.txSdu.getD []) = t.current)
    (hmore : ∀ rest, tx.txSdu = some rest →
      rest ≠ [] ∧ rest.length < t.current.length ∧ tx.txNext = t.tx.txNext)
    (hgood : cond → p.payload t.tx.snSize = data ∧
      Carries t.tx.snSize (readSn t.tx.snSize t.tx.txNext) t.current.length
        (payloads t.tx.snSize t.pdus).length p)
    (hbad : ∀ sn, p.payload t.tx.snSize = data → Carries t.tx.snSize sn t.current.length
      (payloads t.tx.snSize t.pdus).length p → cond) :
    ((t.record tx p).Sound ↔ cond) ∧ (cond → (t.record tx p).Inv) := by
  have hsegments := segments_append (p := p) hcurrent
  have hinv : cond → (t.record tx p).Inv := by
    intro hcond
    obtain ⟨hpayload, hcarries⟩ := hgood hcond
    have hcarry := (carryFrom_append 0).mpr
      ⟨h.carry_current, by rw [Nat.zero_add]; exact hcarries⟩
    have hdone := hsegments.mpr ⟨hpayload, _, h.carry_current, hcarries⟩
    rw [record]
    cases hrest : tx.txSdu with
    | none =>
      rw [if_pos rfl]
      rw [hrest] at hdone
      refine ⟨hnext, fun d hd => ?_, fun _ => ⟨rfl, rfl⟩, fun rest hsome => ?_, trivial⟩
      · dsimp only
        rw [hsize]
        rcases List.mem_append.mp hd with hd | hd
        · exact h.done d hd
        · rw [List.mem_singleton.mp hd]
          exact hdone
      · exact absurd (hrest.symm.trans hsome) (by simp)
    | some rest =>
      obtain ⟨hne, hlt, hsame⟩ := hmore rest hrest
      rw [if_neg (by simp)]
      rw [hrest] at hdone
      refine ⟨hnext, fun d hd => ?_, fun hnone => ?_, fun rest' hsome => ?_, ?_⟩
      · dsimp only
        rw [hsize]
        exact h.done d hd
      · exact absurd (hrest.symm.trans hnone) (by simp)
      · obtain rfl := Option.some.inj (hrest.symm.trans hsome)
        dsimp only
        rw [hsize]
        exact ⟨hne, hlt, hdone.1⟩
      · dsimp only
        rw [hsize, hsame]
        exact hcarry
  refine ⟨⟨fun hsound => ?_, fun hcond => (hinv hcond).sound⟩, hinv⟩
  have hthis : Segments t.tx.snSize t.current (t.pdus ++ [p]) (tx.txSdu.getD []) := by
    rw [record] at hsound
    cases hrest : tx.txSdu with
    | none =>
      rw [if_pos hrest] at hsound
      have hdone := hsound.done _ List.mem_concat_self
      rw [← hsize]
      exact hdone
    | some rest =>
      rw [if_neg (by rw [hrest]; simp)] at hsound
      have hunder := hsound.underWay
      dsimp only at hunder
      rw [hrest, hsize] at hunder
      exact hunder
  obtain ⟨hpayload, sn, -, hcarries⟩ := hsegments.mp hthis
  exact hbad sn hpayload hcarries

theorem segment_pdu {h : UmNrPduHeader} (hh : h.InRange) (hfull : h.si ≠ .fullSdu)
    (hso : h.si.hasSo = true → h.so ≠ 0) (data : Bytes) (grant : ℕ) :
    GrantedPdu.header h.snSize ⟨h.write data, grant⟩ =
        { h with sn := readSn h.snSize h.sn } ∧
      GrantedPdu.payload h.snSize ⟨h.write data, grant⟩ = data ∧
      (h.write data).length = h.packedLength + data.length := by
  have hlength := (UmNrPduHeader.length_fields_eq_iff hh).mpr ⟨hso, fun _ => hfull⟩
  have hheader := (UmNrPduHeader.read_write_segment hh hfull hso data).1
  have hwrite := UmNrPduHeader.write_eq_of_length hlength data
  refine ⟨hheader, ?_, ?_⟩
  · rw [GrantedPdu.payload, GrantedPdu.header, hheader]
    change (h.write data).drop h.packedLength = data
    rw [hwrite, ← hlength, List.drop_left]
  · rw [hwrite, List.length_append, hlength]

/-- An offset of zero is not written. The two bytes behind the sequence number are then bytes of the
room for the header. -/
theorem so_of_zero {si : NrSiField} {sn : ℕ} (hsi : si.hasSo = true) (hsn : sn < 64)
    (data : Bytes) :
    (UmNrPduHeader.read snSize (UmNrPduHeader.write ⟨si, snSize, sn, 0⟩ data)).so = 0 := by
  have hfull : si ≠ .fullSdu := by
    rintro rfl
    cases hsi
  have hroom : UmNrPduHeader.offset (([0, 0] ++ data).take data.length) = 0 := by
    rcases data with - | ⟨x, - | ⟨y, data⟩⟩ <;> simp [UmNrPduHeader.offset]
  cases snSize with
  | size6bits =>
    obtain ⟨hcode, hlow⟩ := UmNrPduHeader.fixedByte si sn hsn
    have hwrite : UmNrPduHeader.write ⟨si, .size6bits, sn, 0⟩ data =
        UInt8.ofNat ((si.code &&& 0x03) <<< 6 ||| (sn &&& 0x3f)) ::
          ([0, 0] ++ data).take data.length := by
      have hpacked : packedLength ⟨si, .size6bits, sn, 0⟩ = 3 := by
        cases si <;> first | rfl | cases hsi
      rw [UmNrPduHeader.write, hpacked, UmNrPduHeader.fields]
      dsimp only
      rw [if_neg hfull, if_neg (by simp), List.append_nil, List.length_singleton, Nat.add_comm]
      rfl
    rw [hwrite, (UmNrPduHeader.read_cons6 hcode hlow _).1]
    dsimp only
    rw [if_pos hsi, hroom]
  | size12bits =>
    have hnibble : sn &&& 0xf < 16 := by
      have heq : sn &&& 0xf = sn % 16 := LengthIndicators.and_low sn 4
      omega
    obtain ⟨hcode, hlow, hreserved⟩ := UmNrPduHeader.fixedByte12 si _ hnibble
    have hwrite : UmNrPduHeader.write ⟨si, .size12bits, sn, 0⟩ data =
        UInt8.ofNat ((si.code &&& 0x03) <<< 6 ||| (sn &&& 0xf)) :: UInt8.ofNat (sn &&& 0xFF) ::
          ([0, 0] ++ data).take data.length := by
      have hpacked : packedLength ⟨si, .size12bits, sn, 0⟩ = 4 := by
        cases si <;> first | rfl | cases hsi
      rw [UmNrPduHeader.write, hpacked, UmNrPduHeader.fields]
      dsimp only
      rw [if_neg hfull, if_neg (by simp), List.append_nil, List.length_cons, List.length_singleton,
        Nat.add_comm]
      rfl
    rw [hwrite, (UmNrPduHeader.read_cons12 hcode hlow hreserved _ _).1]
    dsimp only
    rw [if_pos hsi, hroom]

theorem siOf_segment {start k rest : ℕ} (hstart : 0 < start) (hk : k ≤ rest) :
    siOf start (start + k) (start + rest) =
      if rest ≤ k then .lastSegment else .neitherFirstNorLastSegment := by
  rw [siOf, if_neg hstart.ne']
  by_cases hle : rest ≤ k
  · rw [if_pos hle, if_pos (by omega)]
  · rw [if_neg hle, if_neg (by omega)]

theorem hasSo_siOf {start : ℕ} (hstart : 0 < start) (stop length : ℕ) :
    (siOf start stop length).hasSo = true := by
  rw [siOf, if_neg hstart.ne']
  split_ifs <;> rfl

theorem submit_fst (tx : RlcUmNrTx) (si : NrSiField) (so : ℕ) (data : Bytes) :
    (tx.submit si so data).1.snSize = tx.snSize ∧ (tx.submit si so data).1.txSdu = tx.txSdu ∧
      (tx.submit si so data).1.txNext =
        if si = .lastSegment then (tx.txNext + 1) % tx.snSize.mod else tx.txNext := by
  rw [submit]
  dsimp only
  split_ifs <;> exact ⟨rfl, rfl, rfl⟩

theorem getD_remainder (sdu : Bytes) (k : ℕ) :
    (RlcUmTx.remainder sdu k).getD [] = sdu.drop k := by
  rw [remainder_eq]
  split_ifs with hle
  · exact (List.drop_eq_nil_of_le hle).symm
  · rfl

theorem mod_eq_64 (snSize : UmNrSnSize) : snSize.mod = 64 := by cases snSize <;> rfl

theorem lt_width {sn : ℕ} (h : sn < 64) (snSize : UmNrSnSize) : sn < 2 ^ snSize.width := by
  cases snSize with
  | size6bits => exact h
  | size12bits => exact h.trans (by decide)

theorem packedLength_hasSo {si : NrSiField} (hsi : si.hasSo = true) (tx : RlcUmNrTx) (sn so : ℕ) :
    packedLength ⟨si, tx.snSize, sn, so⟩ = tx.headLen + 2 := by
  rw [headLen, packedLength, packedLength]
  cases si <;> cases tx.snSize <;> first | rfl | cases hsi

theorem addSegment_spec (h : t.Inv) {rem : Bytes} (hrem : t.tx.txSdu = some rem) {nofBytes : ℕ}
    (hspace : t.tx.headLen + 1 < min nofBytes bufferTailroom) :
    ((t.record (t.tx.addSegment nofBytes rem).1
          ⟨(t.tx.addSegment nofBytes rem).2, nofBytes⟩).Sound ↔
        t.tx.nextSo % 2 ^ 16 = t.sdu.length - rem.length ∧
          t.tx.headLen + 2 + t.tx.toMove nofBytes rem ≤ nofBytes) ∧
      (t.tx.nextSo % 2 ^ 16 = t.sdu.length - rem.length ∧
          t.tx.headLen + 2 + t.tx.toMove nofBytes rem ≤ nofBytes →
        (t.record (t.tx.addSegment nofBytes rem).1
          ⟨(t.tx.addSegment nofBytes rem).2, nofBytes⟩).Inv) := by
  obtain ⟨hne, hlt, hflat⟩ := h.underWay rem hrem
  have hcurrent : t.current = t.sdu := if_neg (by rw [hrem]; simp)
  have hk : t.tx.toMove nofBytes rem ≤ rem.length := toMove_le rem
  have hkpos := toMove_pos hspace hne
  have hlength := congrArg List.length hflat
  rw [List.length_append] at hlength
  rw [addSegment]
  generalize t.tx.toMove nofBytes rem = k at hk hkpos ⊢
  have htake : (rem.take k).length = k := by
    rw [List.length_take]
    omega
  have hsi : (if RlcUmTx.remainder rem k = none then NrSiField.lastSegment
      else .neitherFirstNorLastSegment) =
      siOf (payloads t.tx.snSize t.pdus).length ((payloads t.tx.snSize t.pdus).length + k)
        t.sdu.length := by
    rw [← hlength, siOf_segment (by omega) hk, remainder_eq]
    by_cases hle : rem.length ≤ k
    · rw [if_pos hle, if_pos rfl, if_pos hle]
    · rw [if_neg hle, if_neg (by simp), if_neg hle]
  rw [hsi]
  have hhas := hasSo_siOf (show 0 < (payloads t.tx.snSize t.pdus).length by omega)
    ((payloads t.tx.snSize t.pdus).length + k) t.sdu.length
  generalize hsiEq : siOf (payloads t.tx.snSize t.pdus).length
    ((payloads t.tx.snSize t.pdus).length + k) t.sdu.length = si at hsi hhas ⊢
  obtain ⟨hsize, hsdu, hnext⟩ := submit_fst { t.tx with txSdu := RlcUmTx.remainder rem k } si
    (t.tx.nextSo % 2 ^ 16) (rem.take k)
  have hbytes : (submit { t.tx with txSdu := RlcUmTx.remainder rem k } si
      (t.tx.nextSo % 2 ^ 16) (rem.take k)).2 = UmNrPduHeader.write
        ⟨si, t.tx.snSize, t.tx.txNext, t.tx.nextSo % 2 ^ 16⟩ (rem.take k) := rfl
  have hfull : si ≠ .fullSdu := by
    rintro rfl
    cases hhas
  have hrange : UmNrPduHeader.InRange ⟨si, t.tx.snSize, t.tx.txNext, t.tx.nextSo % 2 ^ 16⟩ :=
    ⟨lt_width h.txNext _, Nat.mod_lt _ (Nat.two_pow_pos 16), fun hno => by
      rw [hhas] at hno
      cases hno⟩
  have hoffset : t.tx.nextSo % 2 ^ 16 = t.sdu.length - rem.length ↔
      t.tx.nextSo % 2 ^ 16 = (payloads t.tx.snSize t.pdus).length := by omega
  rw [hoffset]
  refine @record_spec t h _ _ (rem.take k) _ hsize ?_ ?_ (fun rest hrest => ?_) (fun hcond => ?_)
    fun sn hpayload hcarries => ?_
  · rw [hnext]
    split_ifs
    · rw [mod_eq_64]
      exact Nat.mod_lt _ (Nat.zero_lt_succ 63)
    · exact h.txNext
  · rw [hsdu, hcurrent, ← hflat]
    dsimp only
    rw [getD_remainder, List.take_append_drop]
  · rw [hsdu] at hrest
    dsimp only at hrest
    have hmiddle : si ≠ .lastSegment := by
      rw [← hsi, if_neg (by rw [hrest]; simp)]
      decide
    rw [remainder_eq] at hrest
    split_ifs at hrest with hle
    obtain rfl := Option.some.inj hrest
    refine ⟨?_, ?_, ?_⟩
    · rw [ne_eq, List.drop_eq_nil_iff]
      exact hle
    · rw [hcurrent, List.length_drop]
      omega
    · rw [hnext, if_neg hmiddle]
  · obtain ⟨hso, hfits⟩ := hcond
    obtain ⟨hheader, hpayload, hpdu⟩ := segment_pdu hrange hfull
      (fun _ => by dsimp only; omega) (rem.take k) nofBytes
    dsimp only at hheader hpayload hpdu
    rw [htake, packedLength_hasSo hhas] at hpdu
    rw [hbytes]
    refine ⟨hpayload, hpdu.trans_le hfits, ?_, fun _ => ?_, fun _ => ?_⟩
    · rw [hpayload, hheader, htake, hcurrent, hsiEq]
    · rw [hheader]
      exact hso
    · rw [hheader]
  · rw [hbytes] at hpayload hcarries
    have hheaderSi := hcarries.si
    rw [hpayload, htake, hcurrent, hsiEq] at hheaderSi
    have hheaderSo := hcarries.so (by rw [hheaderSi]; exact hhas)
    by_cases hzero : t.tx.nextSo % 2 ^ 16 = 0
    · rw [GrantedPdu.header, hzero, so_of_zero hhas h.txNext] at hheaderSo
      omega
    · obtain ⟨hheader, -, hpdu⟩ := segment_pdu hrange hfull (fun _ => hzero) (rem.take k) nofBytes
      dsimp only at hheader hpdu
      rw [htake, packedLength_hasSo hhas] at hpdu
      rw [hheader] at hheaderSo
      exact ⟨hheaderSo, hpdu ▸ hcarries.size⟩

theorem read_si (snSize : UmNrSnSize) (payload : Bytes) :
    (UmNrPduHeader.read snSize payload).si =
        NrSiField.ofCode ((payload.getD 0 0).toNat >>> 6 &&& 0x03) ∧
      (UmNrPduHeader.read snSize payload).snSize = snSize := by
  cases snSize with
  | size6bits => exact ⟨rfl, rfl⟩
  | size12bits =>
    rw [UmNrPduHeader.read]
    dsimp only
    split_ifs <;> exact ⟨rfl, rfl⟩

/-- A full SDU. With a sequence number of 12 bits its header is one byte short, and the last byte of
the SDU is lost. -/
theorem full_pdu (snSize : UmNrSnSize) (sn : ℕ) (sdu : Bytes) {grant : ℕ}
    (hfits : packedLength ⟨.fullSdu, snSize, sn, 0⟩ + sdu.length ≤ grant) :
    (GrantedPdu.payload snSize ⟨UmNrPduHeader.write ⟨.fullSdu, snSize, sn, 0⟩ sdu, grant⟩ = sdu ↔
        snSize = .size6bits ∨ sdu = []) ∧
      ∀ sn', GrantedPdu.payload snSize ⟨UmNrPduHeader.write ⟨.fullSdu, snSize, sn, 0⟩ sdu, grant⟩ =
          sdu → Carries snSize sn' sdu.length 0
            ⟨UmNrPduHeader.write ⟨.fullSdu, snSize, sn, 0⟩ sdu, grant⟩ := by
  have hwrite : UmNrPduHeader.write ⟨.fullSdu, snSize, sn, 0⟩ sdu =
      UInt8.ofNat ((NrSiField.fullSdu.code &&& 0x03) <<< 6) ::
        ((List.replicate (packedLength ⟨.fullSdu, snSize, sn, 0⟩) 0 ++ sdu).drop
          1).take sdu.length := by
    rw [UmNrPduHeader.write, UmNrPduHeader.fields]
    dsimp only
    rw [if_pos rfl, List.length_singleton, Nat.add_comm]
    rfl
  have hheader := read_si snSize (UmNrPduHeader.write ⟨.fullSdu, snSize, sn, 0⟩ sdu)
  have hcode : NrSiField.ofCode ((UInt8.ofNat ((NrSiField.fullSdu.code &&& 0x03) <<< 6)).toNat >>> 6
      &&& 0x03) = .fullSdu := by decide
  rw [hwrite, List.getD_cons_zero, hcode, ← hwrite] at hheader
  obtain ⟨hsi, hsnSize⟩ := hheader
  constructor
  · have hpacked : (UmNrPduHeader.read snSize
        (UmNrPduHeader.write ⟨.fullSdu, snSize, sn, 0⟩ sdu)).packedLength =
        packedLength ⟨.fullSdu, snSize, sn, 0⟩ := by
      rw [packedLength, hsi, hsnSize]
      rfl
    rw [GrantedPdu.payload, GrantedPdu.header, hpacked, hwrite]
    cases snSize with
    | size6bits =>
      refine iff_of_true ?_ (Or.inl rfl)
      exact List.take_length
    | size12bits =>
      change ((0 :: sdu).take sdu.length).drop 1 = sdu ↔ _
      rcases sdu with - | ⟨x, sdu⟩
      · exact iff_of_true rfl (Or.inr rfl)
      · refine iff_of_false (fun heq => ?_) (by simp)
        have hlength := congrArg List.length heq
        simp at hlength
  · intro sn' hpayload
    refine ⟨?_, ?_, fun hhas => ?_, fun hne => absurd hsi hne⟩
    · have hpos : 1 ≤ packedLength ⟨.fullSdu, snSize, sn, 0⟩ := by
        cases snSize <;> simp [packedLength]
      dsimp only
      rw [hwrite, List.length_cons, List.length_take]
      omega
    · rw [hpayload, Nat.zero_add, siOf, if_pos rfl, if_pos rfl]
      exact hsi
    · rw [GrantedPdu.header, hsi] at hhas
      cases hhas

theorem pullSdu_spec (h : t.Inv) (hnone : t.tx.txSdu = none) {sdu : Bytes} {queue : List Bytes}
    (hqueue : t.tx.txSduQueue = sdu :: queue) {nofBytes : ℕ}
    (hspace : t.tx.headLen + 1 < min nofBytes bufferTailroom) :
    ((t.record (t.tx.pullSdu nofBytes sdu queue).1
          ⟨(t.tx.pullSdu nofBytes sdu queue).2, nofBytes⟩).Sound ↔
        (t.tx.toMove nofBytes sdu = sdu.length → t.tx.snSize = .size6bits ∨ sdu = [])) ∧
      ((t.tx.toMove nofBytes sdu = sdu.length → t.tx.snSize = .size6bits ∨ sdu = []) →
        (t.record (t.tx.pullSdu nofBytes sdu queue).1
          ⟨(t.tx.pullSdu nofBytes sdu queue).2, nofBytes⟩).Inv) := by
  have hcurrent : t.current = sdu := by
    rw [current, if_pos hnone, hqueue]
    rfl
  have hk : t.tx.toMove nofBytes sdu ≤ sdu.length := toMove_le sdu
  have hroom : t.tx.headLen + t.tx.toMove nofBytes sdu ≤ nofBytes := by
    rw [toMove]
    omega
  have hpdus := (h.idle hnone).2
  have hkpos : sdu ≠ [] → 0 < t.tx.toMove nofBytes sdu := toMove_pos hspace
  rw [pullSdu]
  generalize t.tx.toMove nofBytes sdu = k at hk hroom hkpos ⊢
  by_cases hend : k = sdu.length
  · have hrest : RlcUmTx.remainder sdu k = none := by
      rw [remainder_eq, if_pos hend.ge]
    rw [hrest, if_pos rfl, hend, List.take_length, imp_iff_right rfl]
    obtain ⟨hpayload, hcarries⟩ := @full_pdu t.tx.snSize t.tx.txNext sdu nofBytes (hend ▸ hroom)
    refine @record_spec t h _ _ sdu _ rfl h.txNext ?_ (fun rest hsome => by cases hsome)
      (fun hcond => ?_) fun sn hdata _ => hpayload.mp hdata
    · rw [hpdus, hcurrent]
      exact List.append_nil sdu
    · rw [hcurrent, hpdus]
      exact ⟨hpayload.mpr hcond, hcarries _ (hpayload.mpr hcond)⟩
  · have hrest : RlcUmTx.remainder sdu k = some (sdu.drop k) := by
      rw [remainder_eq, if_neg (by omega)]
    have htake : (sdu.take k).length = k := by
      rw [List.length_take]
      omega
    have hrange : UmNrPduHeader.InRange ⟨.firstSegment, t.tx.snSize, t.tx.txNext, 0⟩ :=
      ⟨lt_width h.txNext _, Nat.two_pow_pos 16, fun _ => rfl⟩
    obtain ⟨hheader, hpayload, hpdu⟩ := segment_pdu hrange (fun hc => by cases hc)
      (fun hhas => by cases hhas) (sdu.take k) nofBytes
    have hpacked : packedLength ⟨.firstSegment, t.tx.snSize, t.tx.txNext, 0⟩ =
        t.tx.headLen := by
      rw [headLen, packedLength, packedLength]
      cases t.tx.snSize <;> rfl
    have hsiOf : siOf 0 (0 + k) sdu.length = .firstSegment := by
      rw [siOf, if_pos rfl, Nat.zero_add, if_neg hend]
    dsimp only at hheader hpayload hpdu
    rw [hpacked, htake] at hpdu
    rw [hrest, if_neg (by simp)]
    refine @record_spec t h _ _ (sdu.take k) _ rfl h.txNext ?_ (fun rest hsome => ?_)
      (fun _ => ?_) fun sn _ _ heq => absurd heq hend
    · rw [hpdus, hcurrent]
      exact List.take_append_drop k sdu
    · obtain rfl := Option.some.inj hsome
      refine ⟨?_, ?_, rfl⟩
      · rw [ne_eq, List.drop_eq_nil_iff]
        omega
      · have hpos : 0 < k := hkpos fun hnil => hend (by
          rw [hnil] at hk ⊢
          exact Nat.eq_zero_of_le_zero hk)
        rw [hcurrent, List.length_drop]
        omega
    · have hbytes : (submit { t.tx with txSdu := some (sdu.drop k), txSduQueue := queue }
          .firstSegment 0 (sdu.take k)).2 = UmNrPduHeader.write
            ⟨.firstSegment, t.tx.snSize, t.tx.txNext, 0⟩ (sdu.take k) := rfl
      rw [hpdus, hcurrent, hbytes]
      refine ⟨hpayload, hpdu.trans_le hroom, ?_, fun hhas => ?_, fun _ => ?_⟩
      · rw [hpayload, hheader, htake]
        exact hsiOf.symm
      · rw [hheader] at hhas
        cases hhas
      · rw [hheader]

theorem step_spec (h : t.Inv) (e : Event) :
    ((t.step e).Sound ↔ t.Regular e) ∧ (t.Regular e → (t.step e).Inv) := by
  have hquiet : ∀ tx : RlcUmNrTx, tx.snSize = t.tx.snSize → tx.txNext = t.tx.txNext →
      tx.txSdu = t.tx.txSdu → Inv { t with tx := tx } := by
    intro tx hsize hnext hsdu
    refine ⟨hnext ▸ h.txNext, ?_, ?_, ?_, ?_⟩
    · rw [hsize]
      exact h.done
    · rw [hsdu]
      exact h.idle
    · rw [hsdu, hsize]
      exact h.underWay
    · rw [hsize, hnext]
      exact h.carry
  cases e with
  | writeSdu sdu =>
    have hinv : (t.step (.writeSdu sdu)).Inv := by
      rw [step, RlcUmNrTx.writeSdu]
      split_ifs
      · exact hquiet _ rfl rfl rfl
      · exact h
    exact ⟨iff_of_true hinv.sound trivial, fun _ => hinv⟩
  | readPdu nofBytes =>
    rw [step, buildDataPdu, Regular]
    by_cases hspace : min nofBytes bufferTailroom ≤ t.tx.headLen + 1
    · rw [if_pos hspace]
      exact ⟨iff_of_true h.sound fun hlt => absurd hlt (not_lt.mpr hspace), fun _ => h⟩
    · rw [if_neg hspace, imp_iff_right (not_le.mp hspace)]
      cases hrem : t.tx.txSdu with
      | some rem => exact addSegment_spec h hrem (not_le.mp hspace)
      | none =>
        cases hqueue : t.tx.txSduQueue with
        | nil => exact ⟨iff_of_true h.sound trivial, fun _ => h⟩
        | cons sdu queue => exact pullSdu_spec h hrem hqueue (not_le.mp hspace)

/-- In every run, the PDUs carry their SDUs at every step if and only if every event meets the
condition. -/
theorem alongSegmented_iff_regular (snSize : UmNrSnSize) (txQueueLength : ℕ) (events : List Event) :
    Along step (fun t e => (t.step e).Sound) (start snSize txQueueLength) events ↔
      Along step Regular (start snSize txQueueLength) events :=
  along_congr (fun _ e ht hsound => (step_spec ht e).2 ((step_spec ht e).1.mp hsound))
    (fun _ e ht => (step_spec ht e).1) (inv_start snSize txQueueLength)

/-- The last segment of an SDU needs two bytes more than the transmitter counts with: of an SDU of
ten bytes it sends four in a PDU of five bytes, and then six in one of nine, for a grant of
seven. -/
theorem last_segment_exceeds_grant : ¬ ∀ (snSize : UmNrSnSize) (txQueueLength : ℕ)
    (events : List Event),
    Along step (fun t e => (t.step e).Sound) (start snSize txQueueLength) events := by
  intro h
  have hrun := h .size6bits 8 [.writeSdu (List.replicate 10 0), .readPdu 5, .readPdu 7]
  obtain ⟨-, -, hsound, -⟩ := hrun
  obtain ⟨-, sn, hfirst, hlast, -⟩ := hsound.done _ (List.mem_singleton_self _)
  exact absurd hlast.size (by decide)

end Segmenting
end RlcUmNrTx
end SrsLte
