import SrsLte.BitString
import SrsLte.ExtensionChain
import SrsLte.RlcUm

/-!
# PDUs of RLC acknowledged mode (LTE)

Headers of data PDUs and status PDUs of `rlc_am_lte`. A reader reports when it would read a field
behind the end of the PDU or write behind the end of an array of `RLC_AM_WINDOW_SIZE` entries. The
field `dc` of a data PDU header always says that it is one and is left out.
-/

namespace SrsLte

/-- `RLC_AM_WINDOW_SIZE`. -/
def rlcAmWindowSize : ℕ := 512

/-- `MOD`. -/
def rlcAmMod : ℕ := 1024

inductive RlcAmFault
  | readPastEnd
  | liOverflow
  | nackOverflow
  | nBytesUnderflow
  | nullSdu
  deriving DecidableEq

structure AmdPduHeader where
  rf : Bool
  p : Bool
  fi : ℕ
  sn : ℕ
  lsf : Bool
  so : ℕ
  li : List ℕ
  deriving DecidableEq

namespace AmdPduHeader

/-- `rlc_am_packed_length` with `nLi` length indicators. -/
def packedLength (rf : Bool) (nLi : ℕ) : ℕ :=
  2 + (if rf then 2 else 0) + LengthIndicators.length nLi

/-- `rlc_am_write_data_pdu_header`. -/
def write (h : AmdPduHeader) : Bytes :=
  let ext := if h.li.length > 0 then 1 else 0
  [UInt8.ofNat (1 <<< 7 ||| h.rf.toNat <<< 6 ||| h.p.toNat <<< 5 ||| (h.fi &&& 0x03) <<< 3 |||
      (ext &&& 0x01) <<< 2 ||| (h.sn &&& 0x300) >>> 8),
    UInt8.ofNat (h.sn &&& 0xFF)] ++
  (if h.rf then
    [UInt8.ofNat (h.lsf.toNat <<< 7 ||| (h.so &&& 0x7F00) >>> 8), UInt8.ofNat (h.so &&& 0x00FF)]
  else []) ++
  LengthIndicators.write h.li

/-- The extension part, with `room` entries of `li` left. The flag tells that the next indicator
begins in the middle of a byte. -/
def readLi : ℕ → Bool → Bytes → Except RlcAmFault (List ℕ × Bytes)
  | 0, _, _ => .error .liOverflow
  | room + 1, false, x :: y :: rest =>
    let li := (x.toNat &&& 0x7F) <<< 4 ||| (y.toNat &&& 0xF0) >>> 4
    if x.toNat >>> 7 &&& 0x01 = 0 then .ok ([li], rest)
    else (readLi room true (y :: rest)).map fun r => (li :: r.1, r.2)
  | room + 1, true, x :: y :: rest =>
    let li := (x.toNat &&& 0x07) <<< 8 ||| (y.toNat &&& 0xFF)
    if x.toNat >>> 3 &&& 0x01 = 0 then .ok ([li], rest)
    else (readLi room false rest).map fun r => (li :: r.1, r.2)
  | _ + 1, _, _ => .error .readPastEnd

/-- The fields `lsf` and `so`. -/
def readSegment : Bool → Bytes → Except RlcAmFault (Bool × ℕ × Bytes)
  | false, rest => .ok (false, 0, rest)
  | true, x :: y :: rest =>
    .ok (x.toNat >>> 7 &&& 0x01 = 1, (x.toNat &&& 0x7F) <<< 8 ||| (y.toNat &&& 0xFF), rest)
  | true, _ => .error .readPastEnd

/-- `rlc_am_read_data_pdu_header` with the payload behind the header. -/
def read : Bytes → Except RlcAmFault (AmdPduHeader × Bytes)
  | x :: y :: rest => do
    let rf : Bool := x.toNat >>> 6 &&& 0x01 = 1
    let ext := x.toNat >>> 2 &&& 0x01
    let (lsf, so, rest) ← readSegment rf rest
    let (li, rest) ← if ext = 0 then .ok ([], rest) else readLi rlcAmWindowSize false rest
    .ok
      ({ rf := rf
         p := x.toNat >>> 5 &&& 0x01 = 1
         fi := x.toNat >>> 3 &&& 0x03
         sn := (x.toNat &&& 0x03) <<< 8 ||| (y.toNat &&& 0xFF)
         lsf := lsf
         so := so
         li := li }, rest)
  | _ => .error .readPastEnd

theorem length_write (h : AmdPduHeader) : h.write.length = packedLength h.rf h.li.length := by
  unfold write packedLength
  rw [List.length_append, List.length_append, LengthIndicators.length_write]
  cases h.rf <;> rfl

end AmdPduHeader

structure RlcStatusNack where
  nackSn : ℕ
  hasSo : Bool
  soStart : ℕ
  soEnd : ℕ
  deriving DecidableEq

def RlcStatusNack.whole (sn : ℕ) : RlcStatusNack where
  nackSn := sn
  hasSo := false
  soStart := 0
  soEnd := 0

structure RlcStatusPdu where
  ackSn : ℕ
  nacks : List RlcStatusNack
  deriving DecidableEq

namespace RlcStatusPdu

def bitsOfNack (n : RlcStatusNack) : ℕ := if n.hasSo then 42 else 12

/-- `rlc_am_packed_length`. -/
def packedLength (s : RlcStatusPdu) : ℕ := (15 + (s.nacks.map bitsOfNack).sum + 7) / 8

/-- `rlc_am_is_valid_status_pdu`. -/
def isValid (s : RlcStatusPdu) : Bool := s.nacks.all fun n => n.nackSn ≠ s.ackSn

def writeNack (n : RlcStatusNack) (more : Bool) : List Bool :=
  BitString.ofNat 10 n.nackSn ++ [more, n.hasSo] ++
    if n.hasSo then BitString.ofNat 15 n.soStart ++ BitString.ofNat 15 n.soEnd else []

def writeNacks : List RlcStatusNack → List Bool
  | [] => []
  | n :: nacks => writeNack n (nacks ≠ []) ++ writeNacks nacks

def bits (s : RlcStatusPdu) : List Bool :=
  [false] ++ BitString.ofNat 3 0 ++ BitString.ofNat 10 s.ackSn ++ [decide (s.nacks ≠ [])] ++
    writeNacks s.nacks

/-- `rlc_am_write_status_pdu`. -/
def write (s : RlcStatusPdu) : Bytes :=
  BitString.toBytes (s.bits ++ List.replicate (8 - s.bits.length % 8) false)

def readBits (n : ℕ) (bits : List Bool) : Except RlcAmFault (ℕ × List Bool) :=
  if bits.length < n then .error .readPastEnd
  else .ok (BitString.toNat (bits.take n), bits.drop n)

/-- The loop over the NACKs with `room` entries of `nacks` left. -/
def readNacks : ℕ → List Bool → Except RlcAmFault (List RlcStatusNack)
  | 0, _ => .error .nackOverflow
  | room + 1, bits => do
    let (nackSn, bits) ← readBits 10 bits
    let (ext1, bits) ← readBits 1 bits
    let (ext2, bits) ← readBits 1 bits
    let (soStart, bits) ← if ext2 = 0 then .ok (0, bits) else readBits 15 bits
    let (soEnd, bits) ← if ext2 = 0 then .ok (0, bits) else readBits 15 bits
    let nack : RlcStatusNack :=
      { nackSn := nackSn, hasSo := ext2 ≠ 0, soStart := soStart, soEnd := soEnd }
    if ext1 = 0 then .ok [nack] else (readNacks room bits).map (nack :: ·)

/-- `rlc_am_read_status_pdu` of a control PDU. What is not a status report leaves the status PDU as
it was constructed. -/
def read (pdu : Bytes) : Except RlcAmFault RlcStatusPdu := do
  let (_, bits) ← readBits 1 (BitString.ofBytes pdu)
  let (cpt, bits) ← readBits 3 bits
  if cpt = 0 then
    let (ackSn, bits) ← readBits 10 bits
    let (ext1, bits) ← readBits 1 bits
    let nacks ← if ext1 = 0 then .ok [] else readNacks rlcAmWindowSize bits
    .ok { ackSn := ackSn, nacks := nacks }
  else .ok { ackSn := 0, nacks := [] }

theorem length_writeNacks (nacks : List RlcStatusNack) :
    (writeNacks nacks).length = (nacks.map bitsOfNack).sum := by
  induction nacks with
  | nil => rfl
  | cons n nacks ih =>
    rw [writeNacks, List.length_append, ih, List.map_cons, List.sum_cons]
    unfold writeNack bitsOfNack
    cases n.hasSo <;> simp

theorem length_bits (s : RlcStatusPdu) :
    s.bits.length = 15 + (s.nacks.map bitsOfNack).sum := by
  unfold bits
  simp only [List.length_append, List.length_singleton, BitString.length_ofNat, length_writeNacks]

theorem length_write (s : RlcStatusPdu) : s.write.length = s.bits.length / 8 + 1 := by
  rw [write, BitString.length_toBytes, List.length_append, List.length_replicate]
  omega

end RlcStatusPdu

/-- `rlc_am_is_control_pdu`. -/
def rlcAmIsControlPdu (payload : Bytes) : Bool := (payload.getD 0 0).toNat >>> 7 &&& 0x01 = 0

end SrsLte

/-!
The readers of `rlc_am_lte` follow the extension bits of a PDU without looking at its length. They
stay inside the PDU and inside their arrays if and only if the chain of length indicators or NACKs
is inside the PDU and has at most `RLC_AM_WINDOW_SIZE` entries.
-/

namespace SrsLte

open OctetBits (bit bit_eq_testBit)
open BitString (ofBytes ofBytes_cons)
open ExtensionChain (within_succ not_within_zero within_succ_of_width_lt)

section Except

variable {ε α β : Type}

@[simp]
theorem isOk_ok (a : α) : (Except.ok a : Except ε α).isOk = true := rfl

@[simp]
theorem isOk_error (e : ε) : (Except.error e : Except ε α).isOk = false := rfl

@[simp]
theorem isOk_map (f : α → β) (x : Except ε α) : (x.map f).isOk = x.isOk := by
  cases x <;> rfl

theorem ok_bind (a : α) (f : α → Except ε β) : (Except.ok a >>= f) = f a := rfl

theorem isOk_bind {f : α → Except ε β} {x : Except ε α} :
    (x >>= f).isOk = true ↔ ∃ a, x = .ok a ∧ (f a).isOk = true := by
  cases x with
  | error e => exact ⟨fun h => absurd h Bool.false_ne_true, fun ⟨a, ha, _⟩ => by cases ha⟩
  | ok a => exact ⟨fun h => ⟨a, rfl, h⟩, fun ⟨b, hb, h⟩ => by cases hb; exact h⟩

theorem map_eq_ok_iff {f : α → β} {x : Except ε α} {b : β} :
    x.map f = .ok b ↔ ∃ a, x = .ok a ∧ f a = b := by
  cases x with
  | error e => exact ⟨fun h => (by cases h), fun ⟨a, ha, _⟩ => (by cases ha)⟩
  | ok a =>
    constructor
    · intro h
      exact ⟨a, rfl, Except.ok.inj h⟩
    · rintro ⟨a', ha, rfl⟩
      cases ha
      rfl

theorem bind_eq_ok_iff {f : α → Except ε β} {x : Except ε α} {b : β} :
    (x >>= f) = .ok b ↔ ∃ a, x = .ok a ∧ f a = .ok b := by
  cases x with
  | error e => exact ⟨fun h => (by cases h), fun ⟨a, ha, _⟩ => (by cases ha)⟩
  | ok a =>
    constructor
    · intro h
      exact ⟨a, rfl, h⟩
    · rintro ⟨a', ha, h⟩
      cases ha
      exact h

theorem isOk_iff_exists {x : Except ε α} : x.isOk = true ↔ ∃ a, x = .ok a := by
  cases x with
  | error e => exact ⟨fun h => absurd h Bool.false_ne_true, fun ⟨a, ha⟩ => by cases ha⟩
  | ok a => exact ⟨fun _ => ⟨a, rfl⟩, fun _ => rfl⟩

end Except

theorem getD_ofBytes_cons (x : UInt8) (bytes : Bytes) {i : ℕ} (hi : i < 8) :
    (ofBytes (x :: bytes)).getD i false = bit x i := by
  have hlength : i < ((List.range 8).map (bit x)).length := by
    rwa [List.length_map, List.length_range]
  rw [ofBytes_cons, List.getD_append _ _ _ _ hlength, List.getD_eq_getElem _ _ hlength,
    List.getElem_map, List.getElem_range]

theorem drop_ofBytes_cons (x : UInt8) (bytes : Bytes) (n : ℕ) :
    (ofBytes (x :: bytes)).drop (8 + n) = (ofBytes bytes).drop n := by
  have hlength : ((List.range 8).map (bit x)).length = 8 := by
    rw [List.length_map, List.length_range]
  rw [ofBytes_cons, ← List.drop_drop, List.drop_left' hlength]

theorem shiftRight_and_one (x : UInt8) {i : ℕ} (hi : i < 8) :
    x.toNat >>> (7 - i) &&& 0x01 = (bit x i).toNat := by
  rw [bit_eq_testBit x hi, Nat.toNat_testBit, Nat.and_one_is_mod, Nat.shiftRight_eq_div_pow]

def LiChain : ℕ → List Bool → Prop :=
  ExtensionChain.Within (fun _ => 12) fun bits => bits.getD 0 false

namespace AmdPduHeader

/-- Where an extension part begins that continues in the middle of a byte or at its start. -/
def liStart (middle : Bool) : ℕ := if middle then 4 else 0

@[simp]
theorem liStart_false : liStart false = 0 := rfl

@[simp]
theorem liStart_true : liStart true = 4 := rfl

theorem isOk_readLi_start (room : ℕ) (x y : UInt8) (rest : Bytes) :
    (readLi (room + 1) false (x :: y :: rest)).isOk = true ↔
      (bit x 0 = true → (readLi room true (y :: rest)).isOk = true) := by
  have hmore : x.toNat >>> 7 &&& 0x01 = (bit x 0).toNat :=
    shiftRight_and_one x (i := 0) (by decide)
  rw [readLi, hmore]
  cases bit x 0 <;> simp

theorem isOk_readLi_middle (room : ℕ) (x y : UInt8) (rest : Bytes) :
    (readLi (room + 1) true (x :: y :: rest)).isOk = true ↔
      (bit x 4 = true → (readLi room false rest).isOk = true) := by
  have hmore : x.toNat >>> 3 &&& 0x01 = (bit x 4).toNat :=
    shiftRight_and_one x (i := 4) (by decide)
  rw [readLi, hmore]
  cases bit x 4 <;> simp

theorem isOk_readLi (room : ℕ) (middle : Bool) (bytes : Bytes) :
    (readLi room middle bytes).isOk = true ↔
      LiChain room ((ofBytes bytes).drop (liStart middle)) := by
  induction room generalizing middle bytes with
  | zero =>
    have hread : readLi 0 middle bytes = .error .liOverflow := by cases middle <;> rfl
    rw [hread, isOk_error]
    exact ⟨fun h => absurd h (by decide), fun h => absurd h not_within_zero⟩
  | succ room ih =>
    rcases bytes with - | ⟨x, - | ⟨y, rest⟩⟩
    · have hread : readLi (room + 1) middle [] = .error .readPastEnd := by cases middle <;> rfl
      rw [hread, isOk_error]
      exact ⟨fun h => absurd h Bool.false_ne_true,
        fun h => absurd h (within_succ_of_width_lt (by simp))⟩
    · have hread : readLi (room + 1) middle [x] = .error .readPastEnd := by cases middle <;> rfl
      rw [hread, isOk_error]
      refine ⟨fun h => absurd h Bool.false_ne_true,
        fun h => absurd h (within_succ_of_width_lt ?_)⟩
      rw [List.length_drop, BitString.length_ofBytes, List.length_singleton]
      omega
    · have hlength : 12 ≤ ((ofBytes (x :: y :: rest)).drop (liStart middle)).length := by
        rw [List.length_drop, BitString.length_ofBytes, List.length_cons, List.length_cons, liStart]
        split <;> omega
      rw [LiChain, within_succ, and_iff_right hlength]
      cases middle with
      | false =>
        have hdrop := drop_ofBytes_cons x (y :: rest) 4
        rw [isOk_readLi_start, ih, liStart_false, liStart_true, List.drop_zero,
          getD_ofBytes_cons x _ (by decide), hdrop, LiChain]
      | true =>
        have hfirst : ((ofBytes (x :: y :: rest)).drop 4).getD 0 false = bit x 4 := by
          rw [List.getD_eq_getElem?_getD, List.getElem?_drop, ← List.getD_eq_getElem?_getD,
            getD_ofBytes_cons x _ (by decide)]
        have hdrop : ((ofBytes (x :: y :: rest)).drop 4).drop 12 = ofBytes rest := by
          rw [List.drop_drop]
          exact (drop_ofBytes_cons x _ 8).trans (drop_ofBytes_cons y rest 0)
        rw [isOk_readLi_middle, ih, liStart_false, liStart_true, hfirst, hdrop, List.drop_zero,
          LiChain]

def fixedLength (payload : Bytes) : ℕ := if (ofBytes payload).getD 1 false then 4 else 2

def Inside (payload : Bytes) : Prop :=
  fixedLength payload ≤ payload.length ∧
    ((ofBytes payload).getD 5 false = true →
      LiChain rlcAmWindowSize ((ofBytes payload).drop (8 * fixedLength payload)))

theorem isOk_read_cons (x y : UInt8) (rest : Bytes) :
    (read (x :: y :: rest)).isOk = true ↔
      ∃ s, readSegment (bit x 1) rest = .ok s ∧
        (bit x 5 = true → (readLi rlcAmWindowSize false s.2.2).isOk = true) := by
  have hrf : x.toNat >>> 6 &&& 0x01 = (bit x 1).toNat :=
    shiftRight_and_one x (i := 1) (by decide)
  have hext : x.toNat >>> 2 &&& 0x01 = (bit x 5).toNat :=
    shiftRight_and_one x (i := 5) (by decide)
  have hsegment : decide ((bit x 1).toNat = 1) = bit x 1 := by cases bit x 1 <;> rfl
  rw [read, hrf, hext, hsegment, isOk_bind]
  refine exists_congr fun ⟨lsf, so, tail⟩ => and_congr_right fun _ => ?_
  cases bit x 5 with
  | false => exact ⟨fun _ h => absurd h Bool.false_ne_true, fun _ => rfl⟩
  | true =>
    change (readLi rlcAmWindowSize false tail >>= fun r => .ok (_, r.2)).isOk = true ↔ _
    rw [isOk_bind, imp_iff_right rfl, isOk_iff_exists]
    exact exists_congr fun r => and_iff_left rfl

theorem isOk_read (payload : Bytes) : (read payload).isOk = true ↔ Inside payload := by
  rcases payload with - | ⟨x, - | ⟨y, rest⟩⟩
  · exact ⟨fun h => absurd h Bool.false_ne_true, fun h => absurd h.1 (by decide)⟩
  · refine ⟨fun h => absurd h Bool.false_ne_true, fun h => absurd h.1 ?_⟩
    rw [fixedLength, List.length_singleton]
    split <;> decide
  · rw [isOk_read_cons, Inside, fixedLength, getD_ofBytes_cons x _ (by decide),
      getD_ofBytes_cons x _ (by decide)]
    cases bit x 1 with
    | false =>
      have hdrop : (ofBytes (x :: y :: rest)).drop 16 = ofBytes rest :=
        (drop_ofBytes_cons x _ 8).trans (drop_ofBytes_cons y rest 0)
      have hread : readSegment false rest = .ok (false, 0, rest) := by cases rest <;> rfl
      have hlength : 2 ≤ (x :: y :: rest).length := Nat.le_add_left 2 _
      rw [hread, if_neg Bool.false_ne_true, hdrop, and_iff_right hlength]
      simp only [Except.ok.injEq, exists_eq_left', isOk_readLi, liStart_false, List.drop_zero]
    | true =>
      rw [if_pos rfl]
      rcases rest with - | ⟨a, - | ⟨b, rest⟩⟩
      · exact ⟨fun ⟨_, hs, _⟩ => (by cases hs), fun h => absurd h.1 (by simp)⟩
      · exact ⟨fun ⟨_, hs, _⟩ => (by cases hs), fun h => absurd h.1 (by simp)⟩
      · have hdrop : (ofBytes (x :: y :: a :: b :: rest)).drop 32 = ofBytes rest :=
          (drop_ofBytes_cons x _ 24).trans <| (drop_ofBytes_cons y _ 16).trans <|
            (drop_ofBytes_cons a _ 8).trans (drop_ofBytes_cons b rest 0)
        have hlength : 4 ≤ (x :: y :: a :: b :: rest).length := Nat.le_add_left 4 _
        rw [hdrop, and_iff_right hlength, readSegment]
        simp only [Except.ok.injEq, exists_eq_left', isOk_readLi, liStart_false, List.drop_zero]

theorem sn_lt_of_read {payload rest : Bytes} {header : AmdPduHeader}
    (h : read payload = .ok (header, rest)) : header.sn < rlcAmMod := by
  rcases payload with - | ⟨x, - | ⟨y, bytes⟩⟩
  · cases h
  · cases h
  · have hsn : (x.toNat &&& 0x03) <<< 8 ||| (y.toNat &&& 0xFF) < rlcAmMod := by
      have hx : (x.toNat &&& 0x03) <<< 8 < 2 ^ 10 := by
        have hle : x.toNat &&& 0x03 ≤ 0x03 := Nat.and_le_right
        rw [Nat.shiftLeft_eq]
        omega
      have hy : y.toNat &&& 0xFF < 2 ^ 10 := by
        have hle : y.toNat &&& 0xFF ≤ 0xFF := Nat.and_le_right
        omega
      exact Nat.or_lt_two_pow hx hy
    rw [read] at h
    obtain ⟨⟨lsf, so, tail⟩, -, h⟩ := bind_eq_ok_iff.mp h
    dsimp only at h
    split_ifs at h
    · cases h
      exact hsn
    · obtain ⟨r, -, h⟩ := bind_eq_ok_iff.mp h
      cases h
      exact hsn

end AmdPduHeader

namespace RlcStatusPdu

def nackWidth (bits : List Bool) : ℕ := if bits.getD 11 false then 42 else 12

def NackChain : ℕ → List Bool → Prop :=
  ExtensionChain.Within nackWidth fun bits => bits.getD 10 false

theorem toNat_take_one_drop {bits : List Bool} {i : ℕ} (h : i < bits.length) :
    BitString.toNat ((bits.drop i).take 1) = (bits.getD i false).toNat := by
  rw [← List.getElem_cons_drop h, List.getD_eq_getElem _ _ h]
  cases bits[i] <;> rfl

theorem isOk_readBits_bind {α : Type} (n : ℕ) (bits : List Bool)
    (f : ℕ × List Bool → Except RlcAmFault α) :
    (readBits n bits >>= f).isOk = true ↔
      n ≤ bits.length ∧ (f (BitString.toNat (bits.take n), bits.drop n)).isOk = true := by
  rw [readBits]
  split_ifs with hlt
  · exact ⟨fun h => absurd h Bool.false_ne_true, fun h => absurd h.1 (Nat.not_le.mpr hlt)⟩
  · exact (and_iff_right (Nat.not_lt.mp hlt)).symm

theorem readBits_one_cons (b : Bool) (bits : List Bool) :
    readBits 1 (b :: bits) = .ok (b.toNat, bits) := by
  rw [readBits, if_neg (by simp)]
  cases b <;> rfl

theorem isOk_readNacks_append (room : ℕ) (sn rest : List Bool) (more hasSo : Bool)
    (hsn : sn.length = 10) :
    (readNacks (room + 1) (sn ++ more :: hasSo :: rest)).isOk = true ↔
      (hasSo = true → 30 ≤ rest.length) ∧
        (more = true → (readNacks room (if hasSo then rest.drop 30 else rest)).isOk = true) := by
  have hreadSn : readBits 10 (sn ++ more :: hasSo :: rest) =
      .ok (BitString.toNat sn, more :: hasSo :: rest) := by
    rw [readBits, if_neg (by rw [List.length_append]; omega), List.take_left' hsn,
      List.drop_left' hsn]
  cases hasSo with
  | false =>
    simp only [readNacks, hreadSn, ok_bind, readBits_one_cons, Bool.toNat_false, if_pos]
    cases more <;> simp
  | true =>
    simp only [readNacks, hreadSn, ok_bind, readBits_one_cons, Bool.toNat_true, Nat.one_ne_zero,
      if_false, isOk_readBits_bind, List.length_drop, List.drop_drop]
    have hlength : 15 ≤ rest.length ∧ 15 ≤ rest.length - 15 ↔ 30 ≤ rest.length := by omega
    rw [← and_assoc, hlength, true_imp_iff, if_pos trivial]
    cases more <;> simp

theorem exists_eq_append_of_le {bits : List Bool} (h : 12 ≤ bits.length) :
    ∃ sn more hasSo rest, sn.length = 10 ∧ bits = sn ++ more :: hasSo :: rest := by
  refine ⟨bits.take 10, bits[10], bits[11], bits.drop 12, ?_, ?_⟩
  · rw [List.length_take]
    omega
  · rw [List.getElem_cons_drop, List.getElem_cons_drop, List.take_append_drop]

theorem isOk_readNacks (room : ℕ) (bits : List Bool) :
    (readNacks room bits).isOk = true ↔ NackChain room bits := by
  induction room generalizing bits with
  | zero => exact ⟨fun h => absurd h Bool.false_ne_true, fun h => absurd h not_within_zero⟩
  | succ room ih =>
    by_cases hlength : 12 ≤ bits.length
    · obtain ⟨sn, more, hasSo, rest, hsn, rfl⟩ := exists_eq_append_of_le hlength
      have hmore : (sn ++ more :: hasSo :: rest).getD 10 false = more := by
        rw [List.getD_append_right _ _ _ _ hsn.le, hsn]
        rfl
      have hso : (sn ++ more :: hasSo :: rest).getD 11 false = hasSo := by
        rw [List.getD_append_right _ _ _ _ (by omega), hsn]
        rfl
      have hdrop (n : ℕ) : (sn ++ more :: hasSo :: rest).drop (12 + n) = rest.drop n := by
        rw [show 12 + n = sn.length + (n + 2) by omega, List.drop_length_add_append]
        rfl
      rw [isOk_readNacks_append room sn rest more hasSo hsn, ih, NackChain, within_succ,
        nackWidth, hso, hmore, List.length_append, List.length_cons, List.length_cons, hsn]
      cases hasSo with
      | false =>
        have hwidth : 12 ≤ 10 + (rest.length + 1 + 1) := by omega
        rw [if_neg Bool.false_ne_true, if_neg Bool.false_ne_true, hdrop 0, List.drop_zero,
          and_iff_right hwidth, and_iff_right fun h => absurd h Bool.false_ne_true]
      | true =>
        have hwidth : 42 ≤ 10 + (rest.length + 1 + 1) ↔ 30 ≤ rest.length := by omega
        rw [if_pos rfl, if_pos rfl, hdrop 30, hwidth, imp_iff_right rfl]
    · refine ⟨fun h => ?_, fun h => absurd h (within_succ_of_width_lt ?_)⟩
      · simp only [readNacks, isOk_readBits_bind, List.length_drop] at h
        obtain ⟨hsn, hmore, hso, -⟩ := h
        omega
      · rw [nackWidth]
        split <;> omega

/-- What is not a status report is not read. A status report contains its fixed part and its
NACKs, for which there is room. -/
def Inside (payload : Bytes) : Prop :=
  BitString.toNat (((ofBytes payload).drop 1).take 3) = 0 →
    2 ≤ payload.length ∧ ((ofBytes payload).getD 14 false = true →
      NackChain rlcAmWindowSize ((ofBytes payload).drop 15))

theorem isOk_read {payload : Bytes} (hne : 1 ≤ payload.length) :
    (read payload).isOk = true ↔ Inside payload := by
  have hone : 1 ≤ (ofBytes payload).length := by rw [BitString.length_ofBytes]; omega
  have hthree : 3 ≤ ((ofBytes payload).drop 1).length := by
    rw [List.length_drop, BitString.length_ofBytes]
    omega
  rw [read, isOk_readBits_bind, isOk_readBits_bind, and_iff_right hone, and_iff_right hthree,
    Inside]
  dsimp only
  split_ifs with hcpt
  · rw [imp_iff_right hcpt, isOk_readBits_bind]
    dsimp only
    rw [isOk_readBits_bind, List.drop_drop, List.drop_drop, ← and_assoc]
    have hlength : 10 ≤ ((ofBytes payload).drop (1 + 3)).length ∧
        1 ≤ ((ofBytes payload).drop (1 + 3 + 10)).length ↔ 2 ≤ payload.length := by
      simp only [List.length_drop, BitString.length_ofBytes]
      omega
    rw [hlength]
    refine and_congr_right fun htwo => ?_
    have hlt : 14 < (ofBytes payload).length := by rw [BitString.length_ofBytes]; omega
    have hmore := toNat_take_one_drop hlt
    dsimp only
    rw [hmore, List.drop_drop]
    cases (ofBytes payload).getD 14 false with
    | false => exact ⟨fun _ h => absurd h Bool.false_ne_true, fun _ => rfl⟩
    | true =>
      change (readNacks rlcAmWindowSize _ >>= fun nacks => .ok _).isOk = true ↔ _
      rw [imp_iff_right rfl, ← isOk_readNacks, isOk_bind, isOk_iff_exists]
      exact exists_congr fun nacks => and_iff_left rfl
  · exact ⟨fun _ h => absurd h hcpt, fun _ => rfl⟩

end RlcStatusPdu
end SrsLte
