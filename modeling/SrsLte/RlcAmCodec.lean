import SrsLte.RlcAmPdu

/-!
# Reading back PDUs of RLC acknowledged mode

The reader of `rlc_am_lte` gives back the header of a data PDU, with the payload behind it, and a
status PDU. What the format leaves out is read as zero: the segment fields of a PDU that is not a
segment, and the offsets of a NACK without them.
-/

namespace SrsLte

open LengthIndicators (read_first read_second toNat_first toNat_second toNat_third toNat_single)

namespace AmdPduHeader

/-- The fields have the values that their bits can hold, the segment fields only in a segment. -/
structure Encodable (h : AmdPduHeader) : Prop where
  fi : h.fi < 4
  sn : h.sn < rlcAmMod
  so : h.so < 2 ^ 15
  segment : h.rf = false → h.lsf = false ∧ h.so = 0
  length : h.li.length ≤ rlcAmWindowSize
  li : ∀ n ∈ h.li, n < 2048

theorem fixedByte : ∀ rf p : Bool, ∀ fi < 4, ∀ ext < 2, ∀ high < 4,
    let x := (UInt8.ofNat (1 <<< 7 ||| rf.toNat <<< 6 ||| p.toNat <<< 5 ||| (fi &&& 0x03) <<< 3 |||
      (ext &&& 0x01) <<< 2 ||| high)).toNat
    decide (x >>> 6 &&& 0x01 = 1) = rf ∧ decide (x >>> 5 &&& 0x01 = 1) = p ∧
      x >>> 3 &&& 0x03 = fi ∧ x >>> 2 &&& 0x01 = ext ∧ x &&& 0x03 = high := by
  decide +kernel

theorem segmentByte : ∀ lsf : Bool, ∀ high < 128,
    let x := (UInt8.ofNat (lsf.toNat <<< 7 ||| high)).toNat
    decide (x >>> 7 &&& 0x01 = 1) = lsf ∧ x &&& 0x7F = high := by
  decide +kernel

theorem high_or_low (v : ℕ) : (v / 256) <<< 8 ||| (v % 256 &&& 0xFF) = v := by
  have hlow : v % 256 &&& 0xFF = v % 256 % 256 := LengthIndicators.and_low _ 8
  have hlt : v % 256 < 2 ^ 8 := Nat.mod_lt _ (by decide)
  rw [hlow, Nat.mod_mod, LengthIndicators.or_high hlt]
  omega

theorem readSegment_write (lsf : Bool) {so : ℕ} (hso : so < 2 ^ 15) (rest : Bytes) :
    readSegment true (UInt8.ofNat (lsf.toNat <<< 7 ||| (so &&& 0x7F00) >>> 8) ::
      UInt8.ofNat (so &&& 0x00FF) :: rest) = .ok (lsf, so, rest) := by
  have hhigh : (so &&& 0x7F00) >>> 8 = so / 256 := by
    have hmask : (so &&& 0x7F00) >>> 8 = so / 2 ^ 8 % 2 ^ 7 :=
      LengthIndicators.and_mask_shift so 7 8
    rw [hmask]
    omega
  obtain ⟨hlsf, hvalue⟩ := segmentByte lsf (so / 256) (by omega)
  rw [readSegment, hhigh, toNat_third so]
  rw [hlsf, hvalue, high_or_low]

theorem readLi_write {li : List ℕ} (hne : li ≠ []) (hli : ∀ n ∈ li, n < 2048) {room : ℕ}
    (hroom : li.length ≤ room) (payload : Bytes) :
    readLi room false (LengthIndicators.write li ++ payload) = .ok (li, payload) := by
  induction li using LengthIndicators.write.induct generalizing room with
  | case1 => exact absurd rfl hne
  | case2 a =>
    obtain ⟨room, rfl⟩ : ∃ k, room = k + 1 := ⟨room - 1, (Nat.sub_add_cancel hroom).symm⟩
    have ha : a < 2048 := hli a List.mem_cons_self
    have hvalue : (a / 16 % 128 % 128) * 16 + a % 16 * 16 / 16 = a := by omega
    have hlast : (0 * 128 + a / 16 % 128) / 2 ^ 7 % 2 = 0 := by omega
    have hfirst := toNat_first (show 0 < 2 from Nat.zero_lt_two) a
    rw [LengthIndicators.write, List.cons_append, List.cons_append, List.nil_append, readLi, hfirst,
      toNat_single, LengthIndicators.read_ext, hlast, if_pos rfl, Nat.zero_mul, Nat.zero_add,
      read_first (by omega), hvalue]
  | case3 a b li ih =>
    obtain ⟨room, rfl⟩ : ∃ k, room = k + 2 := by
      rw [List.length_cons, List.length_cons] at hroom
      exact ⟨room - 2, by omega⟩
    have ha : a < 2048 := hli a List.mem_cons_self
    have hb : b < 2048 := hli b (List.mem_cons_of_mem a List.mem_cons_self)
    have hext : (if li = [] then 0 else 1) < 2 := by split_ifs <;> omega
    have hfirst := toNat_first (show 1 < 2 from Nat.one_lt_two) a
    have hsecond := toNat_second hext a b
    have hmore : (1 * 128 + a / 16 % 128) / 2 ^ 7 % 2 ≠ 0 := by omega
    rw [LengthIndicators.write, List.cons_append, List.cons_append, List.cons_append, readLi,
      hfirst, hsecond, LengthIndicators.read_ext, if_neg hmore, readLi, hsecond, toNat_third,
      LengthIndicators.read_ext, read_first (by omega), read_second (by omega)]
    by_cases hnil : li = []
    · subst hnil
      rw [if_pos rfl, if_pos (by omega)]
      simp only [Except.map, LengthIndicators.write, List.nil_append]
      congr 3
      · omega
      · congr 1
        omega
    · have hrest : ∀ n ∈ li, n < 2048 := fun n hn => hli n (by simp [hn])
      rw [if_neg hnil, if_neg (by omega), ih hnil hrest (by simpa using hroom)]
      simp only [Except.map]
      congr 3
      · omega
      · congr 1
        omega

theorem read_write {h : AmdPduHeader} (hh : h.Encodable) (payload : Bytes) :
    read (h.write ++ payload) = .ok (h, payload) := by
  obtain ⟨rf, p, fi, sn, lsf, so, li⟩ := h
  have hfi : fi < 4 := hh.fi
  have hsn : sn < 1024 := hh.sn
  have hso : so < 2 ^ 15 := hh.so
  have hext : (if li.length > 0 then 1 else 0) < 2 := by split_ifs <;> omega
  have hhigh : (sn &&& 0x300) >>> 8 = sn / 256 := by
    have hmask : (sn &&& 0x300) >>> 8 = sn / 2 ^ 8 % 2 ^ 2 :=
      LengthIndicators.and_mask_shift sn 2 8
    rw [hmask]
    omega
  obtain ⟨hrf, hp, hfi, hextBit, hsnBits⟩ := fixedByte rf p fi hfi _ hext (sn / 256) (by omega)
  have hsegment : readSegment rf
      ((if rf then [UInt8.ofNat (lsf.toNat <<< 7 ||| (so &&& 0x7F00) >>> 8),
        UInt8.ofNat (so &&& 0x00FF)] else []) ++ (LengthIndicators.write li ++ payload)) =
      .ok (lsf, so, LengthIndicators.write li ++ payload) := by
    cases rf with
    | true => exact readSegment_write lsf hso _
    | false =>
      obtain ⟨hlsf, hzero⟩ := hh.segment rfl
      dsimp only at hlsf hzero
      rw [hlsf, hzero]
      cases LengthIndicators.write li ++ payload <;> rfl
  rw [write]
  dsimp only
  rw [List.append_assoc, List.append_assoc, List.cons_append, List.cons_append, List.nil_append,
    read, hhigh, toNat_third, hrf, hp, hfi, hextBit, hsnBits, high_or_low, hsegment, ok_bind]
  dsimp only
  by_cases hnil : li = []
  · subst hnil
    rfl
  · rw [if_pos (List.length_pos_iff.mpr hnil), if_neg Nat.one_ne_zero,
      readLi_write hnil hh.li hh.length, ok_bind]

end AmdPduHeader

namespace RlcStatusPdu

/-- The fields have the values that their bits can hold, the offsets only where they are sent. -/
structure Encodable (s : RlcStatusPdu) : Prop where
  ackSn : s.ackSn < rlcAmMod
  length : s.nacks.length ≤ rlcAmWindowSize
  nackSn : ∀ n ∈ s.nacks, n.nackSn < rlcAmMod
  so : ∀ n ∈ s.nacks, n.soStart < 2 ^ 15 ∧ n.soEnd < 2 ^ 15
  offsets : ∀ n ∈ s.nacks, n.hasSo = false → n.soStart = 0 ∧ n.soEnd = 0

theorem readBits_ofNat {n v : ℕ} (hv : v < 2 ^ n) (rest : List Bool) :
    readBits n (BitString.ofNat n v ++ rest) = .ok (v, rest) := by
  have hlength : (BitString.ofNat n v).length = n := BitString.length_ofNat n v
  rw [readBits, if_neg (by rw [List.length_append]; omega), List.take_left' hlength,
    List.drop_left' hlength, BitString.toNat_ofNat, Nat.mod_eq_of_lt hv]

theorem readNacks_write {nacks : List RlcStatusNack} (hne : nacks ≠ [])
    (hsn : ∀ n ∈ nacks, n.nackSn < rlcAmMod)
    (hso : ∀ n ∈ nacks, n.soStart < 2 ^ 15 ∧ n.soEnd < 2 ^ 15)
    (hoffsets : ∀ n ∈ nacks, n.hasSo = false → n.soStart = 0 ∧ n.soEnd = 0) {room : ℕ}
    (hroom : nacks.length ≤ room) (padding : List Bool) :
    readNacks room (writeNacks nacks ++ padding) = .ok nacks := by
  induction nacks generalizing room with
  | nil => exact absurd rfl hne
  | cons n nacks ih =>
    obtain ⟨room, rfl⟩ : ∃ k, room = k + 1 := ⟨room - 1, by rw [List.length_cons] at hroom; omega⟩
    obtain ⟨sn, hasSo, soStart, soEnd⟩ := n
    obtain ⟨hsnLt, hsn⟩ := List.forall_mem_cons.mp hsn
    obtain ⟨⟨hstart, hend⟩, hso⟩ := List.forall_mem_cons.mp hso
    obtain ⟨hnone, hoffsets⟩ := List.forall_mem_cons.mp hoffsets
    change sn < 2 ^ 10 at hsnLt
    dsimp only at hstart hend hnone
    have hrest : (if (decide (nacks ≠ [])).toNat = 0 then
          Except.ok [(⟨sn, hasSo, soStart, soEnd⟩ : RlcStatusNack)]
        else (readNacks room (writeNacks nacks ++ padding)).map
          (⟨sn, hasSo, soStart, soEnd⟩ :: ·)) =
        .ok (⟨sn, hasSo, soStart, soEnd⟩ :: nacks) := by
      by_cases hnil : nacks = []
      · subst hnil
        rfl
      · rw [decide_eq_true hnil, Bool.toNat_true, if_neg Nat.one_ne_zero,
          ih hnil hsn hso hoffsets (Nat.le_of_succ_le_succ hroom)]
        rfl
    rw [writeNacks, writeNack, readNacks]
    simp only [List.append_assoc, List.cons_append, List.nil_append, readBits_ofNat hsnLt, ok_bind,
      readBits_one_cons]
    cases hasSo with
    | false =>
      obtain ⟨rfl, rfl⟩ := hnone rfl
      simpa using hrest
    | true =>
      simp only [if_true, Bool.toNat_true, Nat.one_ne_zero, if_false, List.append_assoc,
        readBits_ofNat hstart, readBits_ofNat hend, ok_bind]
      simpa using hrest

theorem ofBytes_write (s : RlcStatusPdu) :
    BitString.ofBytes s.write = s.bits ++ List.replicate (8 - s.bits.length % 8) false := by
  refine BitString.ofBytes_toBytes (n := s.bits.length / 8 + 1) ?_
  rw [List.length_append, List.length_replicate]
  omega

theorem read_write {s : RlcStatusPdu} (hs : s.Encodable) : read s.write = .ok s := by
  have hack : s.ackSn < 2 ^ 10 := hs.ackSn
  have hzero : 0 < 2 ^ 3 := Nat.two_pow_pos 3
  rw [read, ofBytes_write, bits]
  simp only [List.append_assoc, List.cons_append, List.nil_append, readBits_one_cons, ok_bind,
    readBits_ofNat hzero, readBits_ofNat hack, if_true]
  obtain ⟨ackSn, nacks⟩ := s
  by_cases hnil : nacks = []
  · subst hnil
    rfl
  · simp only [decide_eq_true hnil, Bool.toNat_true, if_neg Nat.one_ne_zero]
    rw [readNacks_write hnil hs.nackSn hs.so hs.offsets hs.length]
    rfl

theorem even_bitsOfNack (nacks : List RlcStatusNack) : (nacks.map bitsOfNack).sum % 2 = 0 := by
  induction nacks with
  | nil => rfl
  | cons n nacks ih =>
    have heven : bitsOfNack n % 2 = 0 := by
      rw [bitsOfNack]
      split <;> rfl
    rw [List.map_cons, List.sum_cons]
    omega

theorem length_write_eq_packedLength (s : RlcStatusPdu) : s.write.length = s.packedLength := by
  have heven := even_bitsOfNack s.nacks
  rw [length_write, length_bits, packedLength]
  omega

end RlcStatusPdu

/-- Headers and status PDUs are read back, have their packed length, and the payload is left. -/
theorem headers_read_back :
    (∀ h : AmdPduHeader, h.Encodable → ∀ payload : Bytes,
      AmdPduHeader.read (h.write ++ payload) = .ok (h, payload) ∧
        h.write.length = AmdPduHeader.packedLength h.rf h.li.length) ∧
    ∀ s : RlcStatusPdu, s.Encodable →
      RlcStatusPdu.read s.write = .ok s ∧ s.write.length = s.packedLength :=
  ⟨fun h hh payload => ⟨AmdPduHeader.read_write hh payload, h.length_write⟩,
    fun s hs => ⟨RlcStatusPdu.read_write hs, s.length_write_eq_packedLength⟩⟩

/-- The last segment of a PDU with three indicators, and a status PDU with a NACK of a part. -/
theorem headers_read_back_segment :
    (AmdPduHeader.read (AmdPduHeader.write
        { rf := true, p := true, fi := 1, sn := 1023, lsf := true, so := 32767
          li := [2047, 1, 300] } ++ [0xAA]) =
      .ok ({ rf := true, p := true, fi := 1, sn := 1023, lsf := true, so := 32767
             li := [2047, 1, 300] }, [0xAA])) ∧
    RlcStatusPdu.read (RlcStatusPdu.write
        { ackSn := 5, nacks := [RlcStatusNack.whole 3, ⟨4, true, 10, 32767⟩] }) =
      .ok { ackSn := 5, nacks := [RlcStatusNack.whole 3, ⟨4, true, 10, 32767⟩] } :=
  ⟨(headers_read_back.1 _ ⟨by decide, by decide, by decide, by decide, by decide, by decide⟩ _).1,
    (headers_read_back.2 _ ⟨by decide, by decide, by decide, by decide, by decide⟩).1⟩

/-- The segment offset of a PDU that is not a segment is not sent, and neither are the offsets of a
NACK without them. -/
theorem offsets_without_segment_not_read_back :
    ¬ ((∀ h : AmdPduHeader, h.fi < 4 → h.sn < rlcAmMod → h.so < 2 ^ 15 →
        h.li.length ≤ rlcAmWindowSize → (∀ n ∈ h.li, n < 2048) → ∀ payload : Bytes,
        AmdPduHeader.read (h.write ++ payload) = .ok (h, payload)) ∧
      ∀ s : RlcStatusPdu, s.ackSn < rlcAmMod → s.nacks.length ≤ rlcAmWindowSize →
        (∀ n ∈ s.nacks, n.nackSn < rlcAmMod) →
        (∀ n ∈ s.nacks, n.soStart < 2 ^ 15 ∧ n.soEnd < 2 ^ 15) →
        RlcStatusPdu.read s.write = .ok s) := by
  rintro ⟨h, -⟩
  have hread := h { rf := false, p := false, fi := 0, sn := 0, lsf := false, so := 1, li := [] }
    (by decide) (by decide) (by decide) (by decide) (by decide) []
  exact absurd hread (by decide)

end SrsLte
