import SrsLte.BinaryPolynomial
import SrsLte.Crc

/-!
# Checksums of strings of bits

A last octet that is not whole goes in with zeros behind its bits, and the checksum is taken back
over the zeros. In every case it is the remainder of the message, moved up by the order.
-/

namespace SrsLte

namespace Crc

/-- `SRSLTE_LTE_CRC16`. -/
def crc16 : Crc := ⟨0x11021, 16⟩

/-- `SRSLTE_LTE_CRC8`. -/
def crc8 : Crc := ⟨0x19B, 8⟩

def libraryCrcs : List Crc := [crcTb, crcCb, crc16, crc8]

variable (h : Crc)

/-- The body of the loop of `reversecrcbit`. -/
def reverseStep (crc : ℕ) : ℕ := if crc.testBit 0 then (crc ^^^ h.polynom) / 2 else crc / 2

def reversecrcbit (crc nbits : ℕ) : ℕ := h.reverseStep^[nbits] crc % 2 ^ h.order

/-- Octet `i` of the loop of `srslte_crc_checksum`. -/
def checksumOctet (data : List Bool) (len i : ℕ) : UInt8 :=
  if i = len / 8 then
    UInt8.ofNat ((List.range (len % 8)).foldl
      (fun byte k => byte ||| (data.getD (8 * i + k) false).toNat <<< (7 - k)) 0)
  else UInt8.ofNat (BitString.toNat ((data.drop (8 * i)).take 8) % 2 ^ 8)

/-- `srslte_crc_checksum`, of the first `len` bits. -/
def checksum (data : List Bool) (len : ℕ) : ℕ :=
  let a := if len % 8 > 0 then 1 else 0
  let crcinit := (List.range (len / 8 + a)).foldl
    (fun crcinit i => h.putByte crcinit (checksumOctet data len i)) 0
  let crc := h.checksumGet crcinit
  if a = 1 then h.reversecrcbit crc (8 - len % 8) else crc

/-- `srslte_crc_attach`. -/
def attach (data : List Bool) (len : ℕ) : List Bool :=
  data.take len ++ BitString.ofNat h.order (h.checksum data len) ++ data.drop (len + h.order)

/-- `srslte_crc_attach_byte`. -/
def attachByte (data : Bytes) (len : ℕ) : Bytes :=
  data.take (len / 8) ++ h.octets (h.checksumByte data len) ++
    data.drop (len / 8 + h.order / 8)

/-- A generator polynomial with its highest and its lowest coefficient, of whole octets. -/
structure Generates : Prop where
  octets : h.order % 8 = 0
  pos : 8 ≤ h.order
  le : h.order ≤ 24
  low : h.polynom.testBit 0 = true
  high : h.polynom / 2 ^ h.order = 1

theorem libraryCrcs_generate {h : Crc} (hh : h ∈ libraryCrcs) : h.Generates := by
  simp only [libraryCrcs, List.mem_cons, List.not_mem_nil, or_false] at hh
  rcases hh with rfl | rfl | rfl | rfl <;> exact ⟨by decide, by decide, by decide, by decide,
    by decide⟩

open Polynomial BinaryPolynomial

noncomputable def residue (n : ℕ) : AdjoinRoot (ofNat h.polynom) := AdjoinRoot.mk _ (ofNat n)

/-- The residue of the variable. -/
noncomputable abbrev x : AdjoinRoot (ofNat h.polynom) := AdjoinRoot.root _

theorem residue_xor (a b : ℕ) : h.residue (a ^^^ b) = h.residue a + h.residue b := by
  unfold residue
  rw [ofNat_xor, map_add]

theorem residue_polynom : h.residue h.polynom = 0 := AdjoinRoot.mk_self

theorem residue_mul_two_pow_add (a : ℕ) {b k : ℕ} (hb : b < 2 ^ k) :
    h.residue (a * 2 ^ k + b) = h.x ^ k * h.residue a + h.residue b := by
  unfold residue
  rw [ofNat_mul_two_pow_add a hb, map_add, map_mul, map_pow, AdjoinRoot.mk_X, mul_comm]

theorem residue_mul_two_pow (a k : ℕ) : h.residue (a * 2 ^ k) = h.x ^ k * h.residue a := by
  unfold residue
  rw [ofNat_mul_two_pow, map_mul, map_pow, AdjoinRoot.mk_X, mul_comm]

namespace Generates

variable {h} (hg : h.Generates)

include hg

theorem polynom_lt : h.polynom < 2 ^ (h.order + 1) := by
  have hdiv := Nat.div_add_mod h.polynom (2 ^ h.order)
  have hmod := Nat.mod_lt h.polynom (Nat.two_pow_pos h.order)
  rw [hg.high] at hdiv
  rw [pow_succ]
  omega

theorem testBit_polynom : h.polynom.testBit h.order = true := by
  rw [Nat.testBit_eq_decide_div_mod_eq, hg.high]
  rfl

variable {crc len : ℕ} {data : List Bool}

section

variable (hcrc : crc < 2 ^ h.order)
include hcrc

theorem genStep_spec :
    h.genStep crc < 2 ^ h.order ∧ h.residue (h.genStep crc) = h.x * h.residue crc := by
  have hpow : 2 ^ h.order * 2 ≤ 2 ^ 64 := by
    rw [← pow_succ]
    exact Nat.pow_le_pow_right (by decide) (Nat.succ_le_succ (hg.le.trans (by decide)))
  have hup : h.residue (crc * 2) = h.x * h.residue crc := by
    have hmul := h.residue_mul_two_pow crc 1
    rwa [pow_one, pow_one] at hmul
  have horder : h.order - 1 + 1 = h.order := Nat.sub_add_cancel (le_trans (by decide) hg.pos)
  have hdouble : crc * 2 < 2 ^ (h.order + 1) := by
    rw [pow_succ]
    omega
  have htop : (crc * 2).testBit h.order = crc.testBit (h.order - 1) := by
    rw [← horder, Nat.testBit_succ, Nat.mul_div_cancel _ (by decide), horder]
  unfold genStep
  rw [Nat.mod_eq_of_lt (by omega)]
  split_ifs with hbit
  · refine ⟨?_, by rw [residue_xor, residue_polynom, add_zero, hup]⟩
    apply Nat.lt_pow_two_of_testBit
    intro i hi
    rw [Nat.testBit_xor]
    rcases Nat.eq_or_lt_of_le hi with rfl | hlt
    · rw [htop, hbit, hg.testBit_polynom]
      rfl
    · have hle := Nat.pow_le_pow_right (show 0 < 2 by decide) hlt
      rw [Nat.testBit_lt_two_pow (Nat.lt_of_lt_of_le hdouble hle),
        Nat.testBit_lt_two_pow (Nat.lt_of_lt_of_le hg.polynom_lt hle)]
      rfl
  · refine ⟨?_, hup⟩
    apply Nat.lt_pow_two_of_testBit
    intro i hi
    rcases Nat.eq_or_lt_of_le hi with rfl | hlt
    · rw [htop]
      exact Bool.eq_false_of_not_eq_true hbit
    · have hle := Nat.pow_le_pow_right (show 0 < 2 by decide) hlt
      exact Nat.testBit_lt_two_pow (Nat.lt_of_lt_of_le hdouble hle)

theorem reverseStep_spec :
    h.reverseStep crc < 2 ^ h.order ∧ h.x * h.residue (h.reverseStep crc) = h.residue crc := by
  have hdown {m : ℕ} (hm : m < 2 ^ (h.order + 1)) (heven : m.testBit 0 = false) :
      m / 2 < 2 ^ h.order ∧ h.x * h.residue (m / 2) = h.residue m := by
    have hmod : m % 2 = 0 := by
      rw [Nat.testBit_zero] at heven
      have hne := of_decide_eq_false heven
      omega
    have hmul := h.residue_mul_two_pow (m / 2) 1
    rw [pow_one, pow_one, Nat.div_mul_cancel (Nat.dvd_of_mod_eq_zero hmod)] at hmul
    rw [pow_succ] at hm
    exact ⟨by omega, hmul.symm⟩
  have hle : 2 ^ h.order ≤ 2 ^ (h.order + 1) := Nat.pow_le_pow_right (by decide) (Nat.le_succ _)
  unfold reverseStep
  split_ifs with hbit
  · have hxor := hdown (m := crc ^^^ h.polynom)
      (Nat.xor_lt_two_pow (Nat.lt_of_lt_of_le hcrc hle) hg.polynom_lt)
      (by rw [Nat.testBit_xor, hbit, hg.low]; rfl)
    rwa [residue_xor, residue_polynom, add_zero] at hxor
  · exact hdown (Nat.lt_of_lt_of_le hcrc hle) (Bool.eq_false_of_not_eq_true hbit)

theorem iterate_genStep (n : ℕ) :
    h.genStep^[n] crc < 2 ^ h.order ∧
      h.residue (h.genStep^[n] crc) = h.x ^ n * h.residue crc := by
  induction n with
  | zero => exact ⟨hcrc, by rw [pow_zero, one_mul]; rfl⟩
  | succ n ih =>
    rw [Function.iterate_succ_apply']
    obtain ⟨hlt, hres⟩ := hg.genStep_spec ih.1
    exact ⟨hlt, by rw [hres, ih.2, pow_succ', mul_assoc]⟩

theorem iterate_reverseStep (n : ℕ) :
    h.reverseStep^[n] crc < 2 ^ h.order ∧
      h.x ^ n * h.residue (h.reverseStep^[n] crc) = h.residue crc := by
  induction n with
  | zero => exact ⟨hcrc, by rw [pow_zero, one_mul]; rfl⟩
  | succ n ih =>
    rw [Function.iterate_succ_apply']
    obtain ⟨hlt, hres⟩ := hg.reverseStep_spec ih.1
    exact ⟨hlt, by rw [pow_succ, mul_assoc, hres, ih.2]⟩

end

theorem table_spec {i : ℕ} (hi : i < 2 ^ 8) :
    h.table i < 2 ^ h.order ∧ h.residue (h.table i) = h.x ^ h.order * h.residue i := by
  have horder : h.order - 8 + 8 = h.order := Nat.sub_add_cancel hg.pos
  have htop : i * 2 ^ (h.order - 8) < 2 ^ h.order := by
    calc i * 2 ^ (h.order - 8) < 2 ^ 8 * 2 ^ (h.order - 8) :=
          Nat.mul_lt_mul_of_pos_right hi (Nat.two_pow_pos _)
      _ = 2 ^ h.order := by rw [← pow_add, Nat.add_comm, horder]
  obtain ⟨hlt, hres⟩ := hg.iterate_genStep htop 8
  unfold table
  rw [Nat.mod_eq_of_lt hlt]
  refine ⟨hlt, ?_⟩
  rw [hres, residue_mul_two_pow, ← mul_assoc, ← pow_add, Nat.add_comm, horder]

theorem putByte_spec (crcinit : ℕ) (byte : UInt8) :
    h.residue (h.checksumGet (h.putByte crcinit byte)) =
      h.x ^ 8 * h.residue (h.checksumGet crcinit) + h.x ^ h.order * h.residue byte.toNat := by
  have horder : h.order - 8 + 8 = h.order := Nat.sub_add_cancel hg.pos
  have htop : crcinit / 2 ^ (h.order - 8) % 2 ^ 8 < 2 ^ 8 := Nat.mod_lt _ (by decide)
  have hlow : crcinit % 2 ^ (h.order - 8) < 2 ^ (h.order - 8) := Nat.mod_lt _ (Nat.two_pow_pos _)
  obtain ⟨hlt, hres⟩ := hg.table_spec (Nat.xor_lt_two_pow htop byte.toNat_lt)
  -- the register is its highest octet above the other bits
  have hsplit : h.checksumGet crcinit =
      crcinit / 2 ^ (h.order - 8) % 2 ^ 8 * 2 ^ (h.order - 8) + crcinit % 2 ^ (h.order - 8) := by
    unfold checksumGet
    conv_lhs => rw [← horder, pow_add, Nat.mod_mul]
    rw [Nat.mul_comm, Nat.add_comm]
  have hshift : crcinit * 2 ^ 8 % 2 ^ 64 % 2 ^ h.order = crcinit % 2 ^ (h.order - 8) * 2 ^ 8 := by
    rw [Nat.mod_mod_of_dvd _ (Nat.pow_dvd_pow 2 (hg.le.trans (by decide)))]
    conv_lhs => rw [← horder, pow_add, Nat.mul_mod_mul_right]
  have hput : h.checksumGet (h.putByte crcinit byte) =
      crcinit % 2 ^ (h.order - 8) * 2 ^ 8 ^^^
        h.table ((crcinit / 2 ^ (h.order - 8) % 2 ^ 8) ^^^ byte.toNat) := by
    unfold checksumGet putByte
    rw [Nat.xor_mod_two_pow, hshift, Nat.mod_eq_of_lt hlt]
  rw [hput, residue_xor, hres, residue_xor, residue_mul_two_pow, hsplit,
    residue_mul_two_pow_add _ _ hlow, mul_add, mul_add, ← mul_assoc, ← pow_add]
  rw [show 8 + (h.order - 8) = h.order by omega]
  ring

theorem foldl_putByte (data : Bytes) :
    h.residue (h.checksumGet (data.foldl h.putByte 0)) =
      h.x ^ h.order * AdjoinRoot.mk _ (ofBits (BitString.ofBytes data)) := by
  induction data using List.reverseRecOn with
  | nil =>
    have hzero : h.checksumGet 0 = 0 := Nat.zero_mod _
    rw [List.foldl_nil, hzero, residue, ofNat_zero, map_zero]
    exact (mul_zero _).symm
  | append_singleton data byte ih =>
    have hbyte : byte.toNat % 2 ^ 8 = byte.toNat := Nat.mod_eq_of_lt byte.toNat_lt
    rw [List.foldl_append, List.foldl_cons, List.foldl_nil, hg.putByte_spec, ih,
      BitString.ofBytes_append_singleton, ofBits_append, BitString.length_ofNat, ofBits_ofNat,
      hbyte, map_add, map_mul, map_pow, AdjoinRoot.mk_X, residue]
    ring

omit hg in
theorem ofNat_checksumOctet {i : ℕ} (hlen : len ≤ data.length) (hi : i < len / 8) :
    ofNat (checksumOctet data len i).toNat = ofBits ((data.drop (8 * i)).take 8) := by
  have hcount : ((data.drop (8 * i)).take 8).length = 8 := by
    rw [List.length_take, List.length_drop]
    omega
  have hlt := BitString.toNat_lt ((data.drop (8 * i)).take 8)
  rw [hcount] at hlt
  unfold checksumOctet
  rw [if_neg (Nat.ne_of_lt hi), Nat.mod_eq_of_lt hlt, UInt8.toNat_ofNat', Nat.mod_eq_of_lt hlt,
    ofNat_toNat]

omit hg in
theorem shifted_bits {start n : ℕ} (hlen : start + n ≤ data.length) (hn : n ≤ 8) :
    (List.range n).foldl
        (fun byte k => byte ||| (data.getD (start + k) false).toNat <<< (7 - k)) 0 =
      BitString.toNat ((data.drop start).take n) * 2 ^ (8 - n) := by
  induction n with
  | zero => simp [BitString.toNat]
  | succ n ih =>
    have hget : ((data.drop start).take (n + 1)) =
        (data.drop start).take n ++ [data.getD (start + n) false] := by
      rw [List.take_add_one, List.getElem?_drop, List.getElem?_eq_getElem (by omega),
        List.getD_eq_getElem _ _ (by omega)]
      rfl
    have hbit : (data.getD (start + n) false).toNat <<< (7 - n) < 2 ^ (8 - n) := by
      have hb := Bool.toNat_lt (data.getD (start + n) false)
      rw [Nat.shiftLeft_eq, show 8 - n = 1 + (7 - n) by omega, pow_add]
      exact Nat.mul_lt_mul_of_pos_right hb (Nat.two_pow_pos _)
    rw [List.range_succ, List.foldl_append, ih (by omega) (by omega), List.foldl_cons,
      List.foldl_nil, ← Nat.shiftLeft_eq, ← Nat.shiftLeft_add_eq_or_of_lt hbit, hget,
      BitString.toNat_append_singleton, Nat.shiftLeft_eq, Nat.shiftLeft_eq,
      show 8 - n = 7 - n + 1 by omega, show 8 - (n + 1) = 7 - n by omega, pow_succ]
    ring

omit hg in
theorem ofNat_checksumOctet_last (hlen : len ≤ data.length) :
    ofNat (checksumOctet data len (len / 8)).toNat =
      ofBits ((data.drop (8 * (len / 8))).take (len % 8)) * X ^ (8 - len % 8) := by
  have hcount : ((data.drop (8 * (len / 8))).take (len % 8)).length = len % 8 := by
    rw [List.length_take, List.length_drop]
    omega
  have hlt : BitString.toNat ((data.drop (8 * (len / 8))).take (len % 8)) * 2 ^ (8 - len % 8) <
      2 ^ 8 := by
    have htoNat := BitString.toNat_lt ((data.drop (8 * (len / 8))).take (len % 8))
    rw [hcount] at htoNat
    calc _ < 2 ^ (len % 8) * 2 ^ (8 - len % 8) :=
          Nat.mul_lt_mul_of_pos_right htoNat (Nat.two_pow_pos _)
      _ = 2 ^ 8 := by rw [← pow_add, Nat.add_sub_cancel' (Nat.mod_lt len (by decide)).le]
  unfold checksumOctet
  rw [if_pos rfl, shifted_bits (by omega) (Nat.mod_lt len (by decide)).le, UInt8.toNat_ofNat',
    Nat.mod_eq_of_lt hlt, ofNat_mul_two_pow, ofNat_toNat]

theorem foldl_octets {n : ℕ} (hlen : len ≤ data.length) (hn : n ≤ len / 8) :
    h.residue (h.checksumGet ((List.range n).foldl
        (fun crcinit i => h.putByte crcinit (checksumOctet data len i)) 0)) =
      h.x ^ h.order * AdjoinRoot.mk _ (ofBits (data.take (8 * n))) := by
  induction n with
  | zero =>
    have hzero : h.checksumGet 0 = 0 := Nat.zero_mod _
    rw [List.range_zero, List.foldl_nil, hzero, residue, ofNat_zero, map_zero]
    exact (mul_zero _).symm
  | succ n ih =>
    have hcount : ((data.drop (8 * n)).take 8).length = 8 := by
      rw [List.length_take, List.length_drop]
      omega
    rw [List.range_succ, List.foldl_append, List.foldl_cons, List.foldl_nil, hg.putByte_spec,
      ih (by omega), residue, ofNat_checksumOctet hlen (by omega), Nat.mul_succ, List.take_add,
      ofBits_append, hcount, map_add, map_mul, map_pow, AdjoinRoot.mk_X]
    ring

theorem residue_checksum (hlen : len ≤ data.length) :
    h.checksum data len < 2 ^ h.order ∧
      h.residue (h.checksum data len) =
        h.x ^ h.order * AdjoinRoot.mk _ (ofBits (data.take len)) := by
  have hget (crcinit : ℕ) : h.checksumGet crcinit < 2 ^ h.order :=
    Nat.mod_lt _ (Nat.two_pow_pos _)
  unfold checksum
  dsimp only
  rcases Nat.eq_zero_or_pos (len % 8) with hwhole | hpart
  · rw [if_neg (show ¬len % 8 > 0 by omega), Nat.add_zero, if_neg (by decide)]
    have hall : 8 * (len / 8) = len := by omega
    exact ⟨hget _, by rw [hg.foldl_octets hlen le_rfl, hall]⟩
  · rw [if_pos hpart, if_pos rfl, List.range_succ, List.foldl_append, List.foldl_cons,
      List.foldl_nil]
    obtain ⟨hlt, hres⟩ := hg.iterate_reverseStep
      (hget (h.putByte ((List.range (len / 8)).foldl
        (fun crcinit i => h.putByte crcinit (checksumOctet data len i)) 0)
        (checksumOctet data len (len / 8)))) (8 - len % 8)
    unfold reversecrcbit
    rw [Nat.mod_eq_of_lt hlt]
    refine ⟨hlt, ?_⟩
    have hcoeff : (ofNat h.polynom).coeff 0 = 1 := by
      rw [coeff_ofNat, hg.low]
      rfl
    -- the steps back undo the multiplication by a unit
    apply ((isUnit_root hcoeff).pow (8 - len % 8)).mul_left_cancel
    have hcount : ((data.drop (8 * (len / 8))).take (len % 8)).length = len % 8 := by
      rw [List.length_take, List.length_drop]
      omega
    have hsplit : data.take len =
        data.take (8 * (len / 8)) ++ (data.drop (8 * (len / 8))).take (len % 8) := by
      rw [← List.take_add, Nat.div_add_mod]
    have hpow : (8 : ℕ) = 8 - len % 8 + len % 8 := by omega
    rw [hres, hg.putByte_spec, hg.foldl_octets hlen le_rfl, residue, ofNat_checksumOctet_last hlen,
      hsplit, ofBits_append, hcount, map_add, map_mul, map_mul, map_pow, map_pow, AdjoinRoot.mk_X]
    conv_lhs =>
      enter [1, 1]
      rw [hpow, pow_add]
    ring

end Generates

variable {h}

section

variable (hg : h.Generates)
include hg

theorem Generates.generator :
    (ofNat h.polynom).degree = h.order ∧ (ofNat h.polynom).Monic := degree_ofNat hg.high

theorem Generates.checksum_eq {data : List Bool} {len : ℕ}
    (hlen : len ≤ data.length) :
    ofNat (h.checksum data len) = (ofBits (data.take len) * X ^ h.order) %ₘ ofNat h.polynom := by
  obtain ⟨hlt, hres⟩ := hg.residue_checksum hlen
  obtain ⟨hdegree, hmonic⟩ := hg.generator
  apply eq_modByMonic hmonic
  · rw [hdegree]
    exact degree_ofNat_lt hlt
  · rw [map_mul, map_pow, AdjoinRoot.mk_X, mul_comm]
    exact hres

theorem Generates.residue_injective {a b : ℕ} (ha : a < 2 ^ h.order)
    (hb : b < 2 ^ h.order) (hres : h.residue a = h.residue b) : a = b := by
  obtain ⟨hdegree, hmonic⟩ := hg.generator
  have hself {n : ℕ} (hn : n < 2 ^ h.order) : (ofNat n).degree < (ofNat h.polynom).degree := by
    rw [hdegree]
    exact degree_ofNat_lt hn
  apply ofNat_injective
  rw [eq_modByMonic hmonic (hself ha) hres]
  exact (eq_modByMonic hmonic (hself hb) rfl).symm

theorem Generates.checksumByte_eq {data : Bytes} {len : ℕ}
    (hwhole : len % 8 = 0) (hlen : len / 8 ≤ data.length) :
    h.checksumByte data len = h.checksum (BitString.ofBytes data) len := by
  have hbits : len ≤ (BitString.ofBytes data).length := by
    rw [BitString.length_ofBytes]
    omega
  obtain ⟨hlt, hres⟩ := hg.residue_checksum hbits
  have hget : h.checksumByte data len < 2 ^ h.order := Nat.mod_lt _ (Nat.two_pow_pos _)
  apply hg.residue_injective hget hlt
  unfold checksumByte
  rw [hres, hg.foldl_putByte, ← BitString.take_ofBytes,
    Nat.mul_div_cancel' (Nat.dvd_of_mod_eq_zero hwhole)]

theorem Generates.checksum_attach {data : List Bool} {len : ℕ}
    (hlen : len + h.order ≤ data.length) :
    h.checksum (h.attach data len) (len + h.order) = 0 := by
  obtain ⟨hlt, hres⟩ := hg.residue_checksum (show len ≤ data.length by omega)
  have hcount : (data.take len ++ BitString.ofNat h.order (h.checksum data len)).length =
      len + h.order := by
    rw [List.length_append, List.length_take, BitString.length_ofNat]
    omega
  have htake : (h.attach data len).take (len + h.order) =
      data.take len ++ BitString.ofNat h.order (h.checksum data len) := List.take_left' hcount
  have hroom : len + h.order ≤ (h.attach data len).length := by
    unfold attach
    rw [List.length_append, hcount]
    exact Nat.le_add_right _ _
  obtain ⟨hlt', hres'⟩ := hg.residue_checksum hroom
  apply hg.residue_injective hlt' (Nat.two_pow_pos _)
  have hsum : AdjoinRoot.mk (ofNat h.polynom) (ofBits (data.take len ++
      BitString.ofNat h.order (h.checksum data len))) = 0 := by
    rw [ofBits_append, ofBits_ofNat, Nat.mod_eq_of_lt hlt, BitString.length_ofNat, map_add, map_mul,
      map_pow, AdjoinRoot.mk_X, mul_comm, ← hres, residue]
    exact add_self _
  rw [hres', htake, hsum, mul_zero, residue, ofNat_zero, map_zero]

theorem Generates.checksumByte_attachByte {data : Bytes} {len : ℕ}
    (hwhole : len % 8 = 0) (hlen : len / 8 + h.order / 8 ≤ data.length) :
    h.checksumByte (h.attachByte data len) (len + h.order) = 0 := by
  have horder : h.order = 8 * (h.order / 8) := by
    have h8 := hg.octets
    omega
  have htake : (data.take (len / 8)).length = len / 8 := List.length_take_of_le (by omega)
  have hattached := h.checksumByte_attached horder (by have := hg.le; omega) (data.take (len / 8))
  rw [htake, show 8 * (len / 8 + h.order / 8) = len + h.order by omega] at hattached
  have hcount : (data.take (len / 8) ++ h.octets (h.checksumByte data len)).length =
      (len + h.order) / 8 := by
    rw [List.length_append, htake, length_octets]
    omega
  have hread {message : Bytes} (rest : Bytes) (hm : message.length = (len + h.order) / 8) :
      h.checksumByte (message ++ rest) (len + h.order) =
        h.checksumByte message (len + h.order) := by
    unfold checksumByte
    rw [List.take_left' hm, List.take_of_length_le hm.le]
  exact (hread _ hcount).trans hattached

end

example : crc8.checksum [true, false, true] 3 = 0x5a := by decide +kernel

/-- An error burst that is not longer than the checksum is always seen, wherever in the message or
its checksum it lies. -/
theorem burst_detected {h : Crc} (hh : h ∈ libraryCrcs) {data pre sent received post : List Bool}
    {len : ℕ} (hroom : len + h.order ≤ data.length)
    (hattach : h.attach data len = pre ++ sent ++ post)
    (hwithin : pre.length + sent.length ≤ len + h.order) (hshort : sent.length ≤ h.order)
    (hlength : received.length = sent.length) (hne : received ≠ sent) :
    h.checksum (pre ++ received ++ post) (len + h.order) ≠ 0 := by
  have hg := libraryCrcs_generate hh
  have hunit : IsUnit h.x := isUnit_root (by rw [coeff_ofNat, hg.low]; rfl)
  have hcheck := hg.checksum_attach hroom
  rw [hattach] at hcheck
  have htotal : len + h.order ≤ (pre ++ sent ++ post).length := by
    rw [← hattach, attach]
    simp
    omega
  -- a message passes if the residue of the window makes up for that of what is around it
  obtain ⟨tail, hpass⟩ : ∃ tail : List Bool, ∀ b : List Bool, b.length = sent.length →
      h.checksum (pre ++ b ++ post) (len + h.order) = 0 →
        h.x ^ tail.length * (h.x ^ sent.length * AdjoinRoot.mk (ofNat h.polynom) (ofBits pre) +
          AdjoinRoot.mk _ (ofBits b)) + AdjoinRoot.mk _ (ofBits tail) = 0 := by
    refine ⟨post.take (len + h.order - (pre ++ sent).length), fun b hb hzero => ?_⟩
    have hcount : (pre ++ b).length = (pre ++ sent).length := by
      rw [List.length_append, List.length_append, hb]
    have hlong : len + h.order ≤ (pre ++ b ++ post).length := by
      rwa [List.length_append, hcount, ← List.length_append]
    have hres := (hg.residue_checksum hlong).2
    rw [hzero, residue, ofNat_zero, map_zero, List.take_append, hcount, List.take_of_length_le
      (by rw [hcount, List.length_append]; exact hwithin), ofBits_append, ofBits_append, hb] at hres
    simpa only [map_add, map_mul, map_pow, AdjoinRoot.mk_X, mul_comm] using
      (hunit.pow h.order).mul_right_eq_zero.mp hres.symm
  intro hzero
  have hres := add_left_cancel ((hunit.pow _).mul_left_cancel
    (add_right_cancel ((hpass _ hlength hzero).trans (hpass _ rfl hcheck).symm)))
  rw [← ofNat_toNat, ← ofNat_toNat] at hres
  have hlt (b : List Bool) (hb : b.length = sent.length) : BitString.toNat b < 2 ^ h.order :=
    (BitString.toNat_lt b).trans_le (Nat.pow_le_pow_right two_pos (hb.trans_le hshort))
  have heq := hg.residue_injective (hlt _ hlength) (hlt _ rfl) hres
  rw [← BitString.ofNat_toNat received, hlength, heq, BitString.ofNat_toNat] at hne
  exact hne rfl

/-- The second and the third bit of three arrive turned over. -/
theorem burst_detected_two :
    crc8.checksum ([true] ++ [false, false] ++ (crc8.attach (List.replicate 11 true) 3).drop 3)
      (3 + 8) ≠ 0 :=
  @burst_detected crc8 (by decide) (List.replicate 11 true) _ [true, true] _ _ 3 (by decide)
    (by decide +kernel) (by decide) (by decide) rfl (by decide)

end Crc

end SrsLte
