import SrsLte.TurboCoder

/-!
# Agreement of the turbo encoders

The interleaver for octets moves bits as the bit-serial encoder reads them, with and without vector
instructions, and the second encoder and both tails follow.
-/

namespace SrsLte

open OctetBits

section Interleaver

variable {per : ℕ → ℕ} {input : Bytes} {i k : ℕ}

theorem bit_interleavedOctet (hk : k < 8) :
    bit (interleavedOctet per input i) k = bitAt input (per (i + k)) :=
  bit_pack (fun j => bitAt input (per (i + j))) hk

theorem and_mask_beq {j : ℕ} (hj : j < 8) (b : UInt8) : (b &&& mask j == mask j) = bit b j := by
  rw [Bool.eq_iff_iff, beq_iff_eq, ← UInt8.toNat_inj, toNat_and_mask b hj, toNat_mask hj,
    bit_eq_testBit b hj, Nat.mul_eq_right (Nat.two_pow_pos _).ne']
  exact Bool.toNat_eq_one

theorem testBit_foldl_or (g : ℕ → Bool) (n k : ℕ) :
    ((List.range n).foldl (fun acc j => acc ||| if g j then 1 <<< j else 0) 0).testBit k =
      (decide (k < n) && g k) := by
  induction n with
  | zero => exact Nat.zero_testBit k
  | succ n ih =>
    have hone : (if g n then 1 <<< n else 0 : ℕ).testBit k = (decide (n = k) && g k) := by
      by_cases hk : n = k
      · subst hk
        cases hg : g n with
        | false => simp
        | true => simp [Nat.one_shiftLeft]
      · cases hg : g n with
        | false => simp [hk]
        | true => simp [Nat.one_shiftLeft, hk]
    rw [List.range_succ, List.foldl_append, List.foldl_cons, List.foldl_nil, Nat.testBit_or, ih,
      hone, ← Bool.and_or_distrib_right, ← Bool.decide_or]
    congr 2
    exact propext (by omega)

theorem bitAt_interleavedOctetsSse (hk : k < 16) :
    bitAt (interleavedOctetsSse per input i) k = bitAt input (per (i + k)) := by
  let place (k : ℕ) : ℕ := if k < 8 then 7 - k else 23 - k
  have hmoved := testBit_foldl_or (fun j =>
    input.getD (per (i + place j) / 8) 0 &&& mask (per (i + place j) % 8) ==
      mask (per (i + place j) % 8)) 16
  unfold interleavedOctetsSse
  dsimp only
  generalize (List.range 16).foldl _ 0 = moved at hmoved ⊢
  have hbit : ∀ j < 16, moved.testBit j = bitAt input (per (i + place j)) := by
    intro j hj
    rw [hmoved, decide_eq_true hj, Bool.true_and, and_mask_beq (Nat.mod_lt _ (by decide))]
    rfl
  rcases Nat.lt_or_ge k 8 with hlow | hhigh
  · have hplace : place (7 - k) = k := by
      simp only [place]
      rw [if_pos (by omega)]
      omega
    have hfirst : bitAt [UInt8.ofNat (moved % 2 ^ 8), UInt8.ofNat (moved / 2 ^ 8)] k =
        bit (UInt8.ofNat (moved % 2 ^ 8)) k := by
      rw [← List.singleton_append, bitAt_append_left _ (by simpa using hlow),
        bitAt_singleton _ hlow]
    rw [hfirst, bit_eq_testBit _ hlow, UInt8.toNat_ofNat', Nat.mod_mod, Nat.testBit_mod_two_pow,
      hbit _ (by omega), hplace, decide_eq_true (by omega), Bool.true_and]
  · obtain ⟨j, rfl⟩ := Nat.exists_eq_add_of_le hhigh
    have hj : j < 8 := by omega
    have hplace : place (8 + (7 - j)) = 8 + j := by
      simp only [place]
      rw [if_neg (by omega)]
      omega
    have hsecond : bitAt [UInt8.ofNat (moved % 2 ^ 8), UInt8.ofNat (moved / 2 ^ 8)] (8 + j) =
        bit (UInt8.ofNat (moved / 2 ^ 8)) j := by
      rw [← bitAt_singleton _ hj]
      exact bitAt_append_right [_] [_] j
    rw [hsecond, bit_eq_testBit _ hj, UInt8.toNat_ofNat', Nat.testBit_mod_two_pow,
      Nat.testBit_div_two_pow, Nat.add_comm (7 - j), hbit _ (by omega), hplace,
      decide_eq_true (by omega), Bool.true_and]

theorem length_bitInterleaverRun (sse : Bool) (n : ℕ) :
    (bitInterleaverRun sse per input n i).length = n := by
  induction n using Nat.strongRecOn generalizing i with
  | ind n ih =>
    rcases n with _ | _ | n
    · rfl
    · rfl
    · cases sse with
      | false => exact congrArg (· + 1) (ih (n + 1) (by omega))
      | true => exact congrArg (· + 2) (ih n (by omega))

theorem bitAt_bitInterleaverRun (sse : Bool) {n : ℕ} (hk : k < 8 * n) :
    bitAt (bitInterleaverRun sse per input n i) k = bitAt input (per (i + k)) := by
  induction n using Nat.strongRecOn generalizing i k with
  | ind n ih =>
    have hcons : ∀ {m : ℕ} {rest : Bytes}, (∀ {k : ℕ}, k < 8 * m →
        bitAt rest k = bitAt input (per (i + 8 + k))) → k < 8 * (m + 1) →
        bitAt (interleavedOctet per input i :: rest) k = bitAt input (per (i + k)) := by
      intro m rest hrest hk
      rw [← List.singleton_append]
      rcases Nat.lt_or_ge k 8 with hlow | hhigh
      · rw [bitAt_append_left _ (by simpa using hlow), bitAt_singleton _ hlow,
          bit_interleavedOctet hlow]
      · obtain ⟨j, rfl⟩ := Nat.exists_eq_add_of_le hhigh
        rw [← Nat.add_assoc, ← hrest (by omega)]
        exact bitAt_append_right [_] rest j
    rcases n with _ | _ | n
    · exact absurd hk (Nat.not_lt_zero k)
    · exact hcons (fun h => absurd h (Nat.not_lt_zero _)) hk
    · cases sse with
      | false => exact hcons (fun h => ih (n + 1) (by omega) h) hk
      | true =>
        rw [bitInterleaverRun, if_pos rfl]
        rcases Nat.lt_or_ge k 16 with hlow | hhigh
        · rw [bitAt_append_left _ hlow, bitAt_interleavedOctetsSse hlow]
        · obtain ⟨j, rfl⟩ := Nat.exists_eq_add_of_le hhigh
          rw [← Nat.add_assoc, ← ih n (by omega) (by omega)]
          exact bitAt_append_right (interleavedOctetsSse per input i) _ j

end Interleaver

def LowClear (octet : UInt8) : Prop := ∀ i, 4 ≤ i → i < 8 → bit octet i = false

variable {i longCb : ℕ}

theorem bit_high_nibble (b : UInt8) (hi : i < 8) :
    bit ((b &&& 0xF0) >>> 4) i = (decide (4 ≤ i) && bit b (i - 4)) := by
  have hmask : ∀ i < 8, (0xF0 : ℕ).testBit (4 + (7 - i)) = decide (4 ≤ i) := by decide
  rw [bit_eq_testBit _ hi, UInt8.toNat_shiftRight, UInt8.toNat_and]
  change ((b.toNat &&& 0xF0) >>> 4).testBit (7 - i) = _
  rw [Nat.testBit_shiftRight, Nat.testBit_and, hmask i hi, Bool.and_comm]
  rcases Nat.lt_or_ge i 4 with h | h
  · rw [decide_eq_false (Nat.not_le.mpr h), Bool.false_and, Bool.false_and]
  · rw [bit_eq_testBit _ (by omega), show 4 + (7 - i) = 7 - (i - 4) by omega]

theorem bit_low_nibble (b : UInt8) (hi : i < 8) :
    bit ((b &&& 0xF) <<< 4) i = (decide (i < 4) && bit b (i + 4)) := by
  rw [bit_eq_testBit _ hi, UInt8.toNat_shiftLeft, UInt8.toNat_and]
  change (((b.toNat &&& 2 ^ 4 - 1) <<< 4) % 2 ^ 8).testBit (7 - i) = _
  rw [Nat.testBit_mod_two_pow, Nat.testBit_shiftLeft, Nat.and_two_pow_sub_one_eq_mod,
    Nat.testBit_mod_two_pow, decide_eq_true (by omega), Bool.true_and,
    decide_eq_true (show 7 - i - 4 < 4 by omega), Bool.true_and]
  rcases Nat.lt_or_ge i 4 with h | h
  · rw [decide_eq_true h, decide_eq_true (by omega), bit_eq_testBit _ (by omega),
      show 7 - i - 4 = 7 - (i + 4) by omega]
  · rw [decide_eq_false (Nat.not_lt.mpr h), decide_eq_false (by omega), Bool.false_and,
      Bool.false_and]

theorem bitAt_cons_zero (b : UInt8) (bs : Bytes) (hi : i < 8) :
    bitAt (b :: bs) i = bit b i := by
  rw [← List.singleton_append, bitAt_append_left _ (by simpa using hi), bitAt_singleton _ hi]

theorem bitAt_cons_succ (b : UInt8) (bs : Bytes) (i : ℕ) :
    bitAt (b :: bs) (8 + i) = bitAt bs i := bitAt_append_right [b] bs i

theorem length_tcodLutParity (state1 : ℕ) (octet : UInt8) (bs : Bytes) :
    (tcodLutParity state1 octet bs).1.length = bs.length + 1 := by
  induction bs generalizing state1 octet with
  | nil => rfl
  | cons b bs ih => exact congrArg (· + 1) (ih _ _)

theorem tcodLutParity_state (r : TcodRegs) (octet : UInt8) (bs : Bytes) :
    (tcodLutParity r.state octet bs).2 = (r.run (bitAt bs) (8 * bs.length)).state := by
  induction bs generalizing r octet with
  | nil => rfl
  | cons b bs ih =>
    have hhead : r.run (bitAt (b :: bs)) 8 = r.run (bit b) 8 :=
      TcodRegs.run_congr fun i hi => bitAt_cons_zero b bs hi
    have htail : (fun i => bitAt (b :: bs) (8 + i)) = bitAt bs := funext (bitAt_cons_succ b bs)
    rw [tcodLutParity, tcodLut_state, List.length_cons, Nat.mul_succ, Nat.add_comm,
      TcodRegs.run_add, hhead, htail]
    exact ih _ _

theorem bitAt_tcodLutParity (r : TcodRegs) {octet : UInt8} (hlow : LowClear octet) (bs : Bytes)
    (hi : i < 8 * bs.length + 8) :
    bitAt (tcodLutParity r.state octet bs).1 i =
      if i < 4 then bit octet i
      else if i < 8 * bs.length + 4 then r.parityAt (bitAt bs) (i - 4) else false := by
  induction bs generalizing r octet i with
  | nil =>
    have hi8 : i < 8 := by simpa using hi
    rw [tcodLutParity, bitAt_singleton _ hi8]
    split_ifs with h4 h
    · rfl
    · exact absurd h (by simpa using h4)
    · exact hlow i (by omega) hi8
  | cons b bs ih =>
    have hhead : ∀ j < 8, bitAt (b :: bs) j = bit b j := fun j hj => bitAt_cons_zero b bs hj
    rw [tcodLutParity, tcodLut_state]
    dsimp only
    rcases Nat.lt_or_ge i 8 with h8 | h8
    · have hpar : ∀ j < 8, bit (pack (r.parityAt (bit b))) j = r.parityAt (bitAt (b :: bs)) j := by
        intro j hj
        rw [bit_pack _ hj]
        exact TcodRegs.parityAt_congr fun l hl => (hhead l (by omega)).symm
      rw [bitAt_cons_zero _ _ h8, bit_or _ _ h8, bit_high_nibble _ h8]
      split_ifs with h4 h
      · rw [decide_eq_false (by omega), Bool.false_and, Bool.or_false]
      · rw [hlow i (by omega) h8, decide_eq_true (by omega), Bool.false_or, Bool.true_and,
          hpar _ (by omega)]
      · exact absurd h (by rw [List.length_cons]; omega)
    · obtain ⟨j, rfl⟩ := Nat.exists_eq_add_of_le h8
      have hclear : LowClear ((pack (r.parityAt (bit b)) &&& 0xF) <<< 4) := by
        intro l hl hl8
        rw [bit_low_nibble _ hl8, decide_eq_false (by omega), Bool.false_and]
      have hregs : r.run (bitAt (b :: bs)) 8 = r.run (bit b) 8 := TcodRegs.run_congr hhead
      have htail : (fun i => bitAt (b :: bs) (8 + i)) = bitAt bs := funext (bitAt_cons_succ b bs)
      rw [bitAt_cons_succ, ih _ hclear (by rw [List.length_cons] at hi; omega), List.length_cons,
        if_neg (show ¬ 8 + j < 4 by omega)]
      rcases Nat.lt_or_ge j 4 with h4 | h4
      · rw [if_pos h4, if_pos (by omega), bit_low_nibble _ (by omega), decide_eq_true h4,
          Bool.true_and, bit_pack _ (by omega), show 8 + j - 4 = j + 4 by omega]
        exact TcodRegs.parityAt_congr fun l hl => (hhead l (by omega)).symm
      · obtain ⟨l, rfl⟩ := Nat.exists_eq_add_of_le h4
        rw [if_neg (Nat.not_lt.mpr h4), Nat.add_sub_cancel_left,
          show 8 + (4 + l) - 4 = 8 + l by omega, TcodRegs.parityAt_add, hregs, htail]
        by_cases hl : 4 + l < 8 * bs.length + 4
        · rw [if_pos hl, if_pos (by omega)]
        · rw [if_neg hl, if_neg (by omega)]

theorem bit_packFour_high (f : ℕ → Bool) (hi : i < 8) :
    bit (packFour f <<< 4) i = (decide (i < 4) && f i) := by
  have hall : ∀ b0 b1 b2 b3 : Bool, ∀ i < 8,
      bit (packFour (fun j => [b0, b1, b2, b3].getD j false) <<< 4) i =
        [b0, b1, b2, b3].getD i false := by
    decide +kernel
  have hpack : packFour (fun j => [f 0, f 1, f 2, f 3].getD j false) = packFour f := rfl
  rw [← hpack, hall _ _ _ _ i hi]
  interval_cases i <;> rfl

theorem bit_packFour_low (f : ℕ → Bool) (hi : i < 8) :
    bit (packFour f &&& 0xF) i = (decide (4 ≤ i) && f (i - 4)) := by
  have hall : ∀ b0 b1 b2 b3 : Bool, ∀ i < 8,
      bit (packFour (fun j => [b0, b1, b2, b3].getD j false) &&& 0xF) i =
        (decide (4 ≤ i) && [b0, b1, b2, b3].getD (i - 4) false) := by
    decide +kernel
  have hpack : packFour (fun j => [f 0, f 1, f 2, f 3].getD j false) = packFour f := rfl
  rw [← hpack, hall _ _ _ _ i hi]
  interval_cases i <;> rfl

theorem bitAt_modify {bs : Bytes} {k : ℕ} (b : UInt8) (hk : k < bs.length) :
    bitAt (bs.modify k (· ||| b)) i =
      (bitAt bs i || (decide (i / 8 = k) && bit b (i % 8))) := by
  unfold bitAt
  by_cases h : i / 8 = k
  · subst h
    rw [List.getD_eq_getElem?_getD, List.getElem?_modify_eq, List.getD_eq_getElem?_getD,
      List.getElem?_eq_getElem hk, decide_eq_true rfl, Bool.true_and]
    exact bit_or _ _ (Nat.mod_lt _ (by decide))
  · rw [List.getD_eq_getElem?_getD, List.getElem?_modify_ne _ _ (Ne.symm h),
      List.getD_eq_getElem?_getD, decide_eq_false h, Bool.false_and, Bool.or_false]

theorem bitAt_second (r : TcodRegs) (bs : Bytes) (t1 t2 : ℕ → Bool) (hbs : 0 < bs.length)
    (hi : i < 8 * bs.length + 8) :
    bitAt (((tcodLutParity r.state 0 bs).1.modify 0 (· ||| packFour t1 <<< 4)).modify bs.length
        (· ||| (packFour t2 &&& 0xF))) i =
      if i < 4 then t1 i
      else if i < 8 * bs.length + 4 then r.parityAt (bitAt bs) (i - 4)
      else t2 (i - (8 * bs.length + 4)) := by
  have hlen := length_tcodLutParity r.state 0 bs
  have hzero : LowClear 0 := fun i _ _ => bit_zero i
  rw [bitAt_modify _ (by rw [List.length_modify, hlen]; omega), bitAt_modify _ (by omega),
    bitAt_tcodLutParity r hzero bs hi]
  have hmod : i % 8 < 8 := Nat.mod_lt _ (by decide)
  rw [bit_packFour_high _ hmod, bit_packFour_low _ hmod]
  split_ifs with h4 hmid
  · have hdiv : i / 8 = 0 := by omega
    have hrem : i % 8 = i := by omega
    have hne : ¬ 0 = bs.length := hbs.ne
    rw [hrem, hdiv, bit_zero, decide_eq_true h4, decide_eq_false hne]
    simp
  · have hfirst : (decide (i / 8 = 0) && (decide (i % 8 < 4) && t1 (i % 8))) = false := by
      by_cases h0 : i / 8 = 0
      · rw [decide_eq_false (show ¬ i % 8 < 4 by omega), Bool.false_and, Bool.and_false]
      · rw [decide_eq_false h0, Bool.false_and]
    have hlast : (decide (i / 8 = bs.length) && (decide (4 ≤ i % 8) && t2 (i % 8 - 4))) =
        false := by
      by_cases h0 : i / 8 = bs.length
      · rw [decide_eq_false (show ¬ 4 ≤ i % 8 by omega), Bool.false_and, Bool.and_false]
      · rw [decide_eq_false h0, Bool.false_and]
    rw [hfirst, hlast, Bool.or_false, Bool.or_false]
  · have hdiv : i / 8 = bs.length := by omega
    have hrem : i % 8 - 4 = i - (8 * bs.length + 4) := by omega
    rw [hrem, hdiv, decide_eq_false (show ¬ bs.length = 0 by omega), decide_eq_true rfl,
      decide_eq_true (show 4 ≤ i % 8 by omega)]
    simp

/-- `srslte_bit_unpack_vector`. -/
def unpackVector (bs : Bytes) (n : ℕ) : List (Option Bool) :=
  (List.range n).map fun i => some (bitAt bs i)

/-- What one encoder interlaces the other one has in two buffers: the bits of the block and a third
of the tail behind them, and both parities with a third of the tail behind each. -/
structure TcodAgree (longCb : ℕ) (out : List (Option Bool)) (lut : TcodLutEncoded) : Prop where
  length : out.length = 3 * longCb + 12
  length_input : lut.input.length = longCb / 8 + 1
  length_parity : lut.parity.length = longCb / 4 + 1
  systematic : ∀ i < longCb + 4, out[3 * i]? = some (some (bitAt lut.input i))
  parity0 : ∀ i < longCb + 4, out[3 * i + 1]? = some (some (bitAt lut.parity i))
  parity1 : ∀ i < longCb + 4, out[3 * i + 2]? = some (some (bitAt lut.parity (longCb + 4 + i)))

theorem txBit_unpackVector (bs : Bytes) {n : ℕ} (hi : i < n) :
    txBit ((unpackVector bs n).getD i none) = bitAt bs i := by
  unfold unpackVector
  rw [List.getD_eq_getElem?_getD, List.getElem?_map, List.getElem?_range hi]
  rfl

theorem unpackVector_append {bs : Bytes} {n : ℕ} (bs' : Bytes) (hn : n ≤ 8 * bs.length) :
    unpackVector (bs ++ bs') n = unpackVector bs n := by
  refine List.map_congr_left fun i hi => ?_
  rw [bitAt_append_left _ (Nat.lt_of_lt_of_le (List.mem_range.mp hi) hn)]

theorem tcodPerFw_lt {index : ℕ} (h : cbsegmCbsize index = some longCb) (i : ℕ) :
    tcodPerFw index i < longCb := by
  have hpos : 0 < longCb := by
    have := (cbsize_spec h).2.1
    omega
  have hget : tcCbSizes.getD index 0 = longCb := by
    rw [List.getD_eq_getElem?_getD, show tcCbSizes[index]? = some longCb from h]
    rfl
  unfold tcodPerFw
  rw [hget]
  dsimp only
  split_ifs with h0
  · exact hpos
  · exact Nat.mod_lt _ hpos

theorem tcodEncode_unpackVector {index : ℕ} (h : cbsegmCbsize index = some longCb) (block : Bytes) :
    tcodEncode 6144 (unpackVector block longCb) longCb =
      some (((List.range longCb).flatMap fun i =>
          [some (bitAt block i), some (TcodRegs.zero.parityAt (bitAt block) i),
            some (TcodRegs.zero.parityAt (fun i => bitAt block (tcodPerFw index i)) i)]) ++
        ((TcodRegs.zero.run (bitAt block) longCb).tail 3 ++
          (TcodRegs.zero.run (fun i => bitAt block (tcodPerFw index i)) longCb).tail 3).map
            some) := by
  have hmax : ¬ longCb > 6144 := Nat.not_lt.mpr (cbsize_spec h).2.2
  unfold tcodEncode
  rw [if_neg hmax, cbindex_cbsize h, Option.map_some, tcodStep_run]
  have hx : ∀ i < longCb, txBit ((unpackVector block longCb).getD i none) = bitAt block i :=
    fun i hi => txBit_unpackVector block hi
  have hy : ∀ i, txBit ((unpackVector block longCb).getD (tcodPerFw index i) none) =
      bitAt block (tcodPerFw index i) :=
    fun i => txBit_unpackVector block (tcodPerFw_lt h i)
  have hget : ∀ i < longCb, (unpackVector block longCb).getD i none = some (bitAt block i) := by
    intro i hi
    unfold unpackVector
    rw [List.getD_eq_getElem?_getD, List.getElem?_map, List.getElem?_range hi]
    rfl
  dsimp only
  rw [TcodRegs.run_congr hx, funext hy]
  congr 2
  refine List.flatMap_congr fun i hi => ?_
  have hi := List.mem_range.mp hi
  rw [hget i hi, TcodRegs.parityAt_congr fun j hj => hx j (Nat.lt_of_le_of_lt hj hi)]
  rfl

section Block

variable {crcTb : Crc} {longCb : ℕ} {crcCb : Option Crc} {input : Bytes} {lastCb : Bool}

theorem length_tcodLutBlock (crcTbInit : ℕ) (hlong : longCb % 8 = 0)
    (hinput : blockSizeNoCrc crcTb crcCb longCb lastCb ≤ input.length)
    (htb : crcTb.order % 8 = 0) (hcb : ∀ h ∈ crcCb, h.order % 8 = 0)
    (hfit : crcCb.elim 0 Crc.order + (if lastCb then crcTb.order else 0) ≤ longCb) :
    (tcodLutBlock crcTb crcTbInit crcCb input longCb lastCb).block.length = longCb / 8 := by
  have hcbmod : crcCb.elim 0 Crc.order % 8 = 0 := by
    cases crcCb with
    | none => rfl
    | some h => exact hcb h rfl
  have htbmod : (if lastCb then crcTb.order else 0) % 8 = 0 := by
    cases lastCb with
    | false => rfl
    | true => exact htb
  have hcblen : ∀ data, (cbOctets crcCb data).length = crcCb.elim 0 Crc.order / 8 := by
    intro data
    cases crcCb with
    | none => rfl
    | some h => exact h.length_octets _
  have htblen : ∀ data, (tbOctets crcTb crcTbInit data lastCb).length =
      (if lastCb then crcTb.order else 0) / 8 := by
    intro data
    cases lastCb with
    | false =>
      unfold tbOctets
      rw [if_neg Bool.false_ne_true, if_neg Bool.false_ne_true]
      rfl
    | true => exact crcTb.length_octets _
  rw [tcodLutBlock_block rfl, List.length_append, List.length_append, hcblen, htblen,
    List.length_take, Nat.min_eq_left hinput, blockSizeNoCrc]
  omega

theorem tcodLutBlock_take (crcTbInit : ℕ)
    (hinput : blockSizeNoCrc crcTb crcCb longCb lastCb ≤ input.length) :
    (tcodLutBlock crcTb crcTbInit crcCb input longCb lastCb).block.take
        (blockSizeNoCrc crcTb crcCb longCb lastCb) =
      input.take (blockSizeNoCrc crcTb crcCb longCb lastCb) := by
  have hle : (input.take (blockSizeNoCrc crcTb crcCb longCb lastCb)).length =
      blockSizeNoCrc crcTb crcCb longCb lastCb := by
    rw [List.length_take, Nat.min_eq_left hinput]
  rw [tcodLutBlock_block rfl, List.append_assoc, List.take_append_of_le_length hle.ge,
    List.take_of_length_le hle.le]

end Block

section Streams

variable {block parity second : Bytes} {p0 p1 : ℕ → Bool} {tail : List Bool} {longCb crcTb : ℕ}

/-- The output by threes and the buffers have the same streams if the buffers hold the block, both
parities and the tail where they belong. -/
theorem tcodAgree_of_streams (hlong : longCb % 8 = 0) (hblock : 8 * block.length = longCb)
    (hparity : 8 * parity.length = longCb) (hsecond : 8 * second.length = longCb + 8)
    (htail : tail.length = 12) (hp0 : ∀ i < longCb, bitAt parity i = p0 i)
    (hp1 : ∀ i < longCb + 8, bitAt second i =
      if i < 4 then tail.getD (3 * i + 1) false
      else if i < longCb + 4 then p1 (i - 4) else tail.getD (3 * (i - (longCb + 4)) + 2) false) :
    TcodAgree longCb
      (((List.range longCb).flatMap fun i => [some (bitAt block i), some (p0 i), some (p1 i)]) ++
        tail.map some)
      ⟨crcTb, block ++ [packFour (fun i => tail.getD (3 * i + 0) false) <<< 4],
        parity ++ second⟩ := by
  have hflat := length_flatMap_range
    (g := fun i => [some (bitAt block i), some (p0 i), some (p1 i)]) (fun _ => rfl) longCb
  have hbits : ∀ i < longCb, ∀ j < 3,
      (((List.range longCb).flatMap fun i => [some (bitAt block i), some (p0 i), some (p1 i)]) ++
        tail.map some)[3 * i + j]? = [some (bitAt block i), some (p0 i), some (p1 i)][j]? := by
    intro i hi j hj
    rw [List.getElem?_append_left (by rw [hflat]; omega)]
    exact getElem?_flatMap_range
      (g := fun i => [some (bitAt block i), some (p0 i), some (p1 i)]) (fun _ => rfl) hi hj
  have hends : ∀ k < 4, ∀ j < 3,
      (((List.range longCb).flatMap fun i => [some (bitAt block i), some (p0 i), some (p1 i)]) ++
        tail.map some)[3 * (longCb + k) + j]? = some (some (tail.getD (3 * k + j) false)) := by
    intro k hk j hj
    rw [List.getElem?_append_right (by rw [hflat]; omega), hflat, List.getElem?_map,
      show 3 * (longCb + k) + j - 3 * longCb = 3 * k + j by omega,
      List.getElem?_eq_getElem (by omega), List.getD_eq_getElem?_getD,
      List.getElem?_eq_getElem (by omega)]
    rfl
  constructor
  · rw [List.length_append, hflat, List.length_map, htail]
  · rw [List.length_append, List.length_singleton]
    omega
  · rw [List.length_append]
    omega
  · intro i hi
    rcases Nat.lt_or_ge i longCb with hlt | hge
    · rw [bitAt_append_left _ (by rw [hblock]; exact hlt)]
      exact hbits i hlt 0 (by decide)
    · obtain ⟨k, rfl⟩ := Nat.exists_eq_add_of_le hge
      have hk : k < 4 := by omega
      refine (hends k hk 0 (by decide)).trans ?_
      rw [← hblock, bitAt_append_right, bitAt_singleton _ (by omega),
        bit_packFour_high _ (by omega), decide_eq_true hk, Bool.true_and]
  · intro i hi
    rcases Nat.lt_or_ge i longCb with hlt | hge
    · rw [bitAt_append_left _ (by rw [hparity]; exact hlt), hp0 i hlt]
      exact hbits i hlt 1 (by decide)
    · obtain ⟨k, rfl⟩ := Nat.exists_eq_add_of_le hge
      have hk : k < 4 := by omega
      refine (hends k hk 1 (by decide)).trans ?_
      have hbit : bitAt (parity ++ second) (longCb + k) = bitAt second k := by
        rw [← hparity, bitAt_append_right]
      rw [hbit, hp1 k (by omega), if_pos hk]
  · intro i hi
    have hbit : bitAt (parity ++ second) (longCb + 4 + i) = bitAt second (4 + i) := by
      rw [← hparity, Nat.add_assoc, bitAt_append_right]
    rw [hbit, hp1 (4 + i) (by omega), if_neg (by omega)]
    rcases Nat.lt_or_ge i longCb with hlt | hge
    · rw [if_pos (by omega), Nat.add_sub_cancel_left]
      exact hbits i hlt 2 (by decide)
    · obtain ⟨k, rfl⟩ := Nat.exists_eq_add_of_le hge
      rw [if_neg (by omega), show 4 + (longCb + k) - (longCb + 4) = k by omega]
      exact hends k (by omega) 2 (by decide)

end Streams

theorem tcodLutTail_agrees (per : ℕ → ℕ) {s : TcodLutRun} {temp : Bytes}
    (henc : s.Encodes) (hpos : 0 < longCb) (hblock : 8 * s.block.length = longCb)
    (htemplen : 8 * temp.length = longCb)
    (htemp : ∀ i < longCb, bitAt temp i = bitAt s.block (per i)) :
    TcodAgree longCb
      (((List.range longCb).flatMap fun i =>
          [some (bitAt s.block i), some (TcodRegs.zero.parityAt (bitAt s.block) i),
            some (TcodRegs.zero.parityAt (fun i => bitAt s.block (per i)) i)]) ++
        ((TcodRegs.zero.run (bitAt s.block) longCb).tail 3 ++
          (TcodRegs.zero.run (fun i => bitAt s.block (per i)) longCb).tail 3).map some)
      (tcodLutTail s (tcodLutParity 0 0 temp) longCb) := by
  have hstate0 := henc.state0
  have hstate1 := tcodLutParity_state .zero 0 temp
  rw [hblock] at hstate0
  rw [htemplen, TcodRegs.run_congr htemp, show TcodRegs.zero.state = 0 from rfl] at hstate1
  unfold tcodLutTail
  rw [hstate0, hstate1, TcodRegs.ofState_state, TcodRegs.ofState_state]
  have hsecond := length_tcodLutParity 0 0 temp
  refine tcodAgree_of_streams (by omega) hblock (by rw [henc.length, hblock]) ?_ ?_ ?_ ?_
  · rw [List.length_modify, List.length_modify, hsecond]
    omega
  · rw [List.length_append, TcodRegs.length_tail, TcodRegs.length_tail]
  · intro i hi
    exact henc.parity i (by rw [hblock]; exact hi)
  · intro i hi
    have hdiv : longCb / 8 = temp.length := by omega
    rw [hdiv, ← htemplen]
    refine (bitAt_second .zero temp _ _ (by omega) (by rw [htemplen]; exact hi)).trans ?_
    split_ifs with h4 hmid
    · rfl
    · exact TcodRegs.parityAt_congr fun j hj => htemp j (by omega)
    · rfl

theorem tcodEncodeLut_eq (sse : Bool) (crcTb : Crc) (crcTbInit : ℕ) (crcCb : Option Crc)
    (input : Bytes) (lastCb : Bool) {cblenIdx : ℕ}
    (hsize : cbsegmCbsize cblenIdx = some longCb) :
    tcodEncodeLut sse crcTb crcTbInit crcCb input cblenIdx lastCb =
      some (tcodLutTail (tcodLutBlock crcTb crcTbInit crcCb input longCb lastCb)
        (tcodLutParity 0 0 (bitInterleaverRun sse (tcodPerFw cblenIdx)
          (tcodLutBlock crcTb crcTbInit crcCb input longCb lastCb).block (longCb / 8) 0))
        longCb) := by
  unfold tcodEncodeLut
  rw [hsize, Option.bind_some, if_neg (not_not.mpr (cbsize_spec hsize).1)]

/-- The encoder by octets gives what the encoder by bits gives for the block with its checksums. -/
theorem tcodEncodeLut_agrees (sse : Bool) (crcTb : Crc) (crcTbInit : ℕ) (crcCb : Option Crc)
    (input : Bytes) (cblenIdx longCb : ℕ) (lastCb : Bool)
    (hsize : cbsegmCbsize cblenIdx = some longCb)
    (hinput : blockSizeNoCrc crcTb crcCb longCb lastCb ≤ input.length)
    (htb : crcTb.order % 8 = 0) (hcb : ∀ h ∈ crcCb, h.order % 8 = 0)
    (hfit : crcCb.elim 0 Crc.order + (if lastCb then crcTb.order else 0) ≤ longCb) :
    ∃ lut out, tcodEncodeLut sse crcTb crcTbInit crcCb input cblenIdx lastCb = some lut ∧
      tcodEncode 6144 (unpackVector lut.input longCb) longCb = some out ∧
      TcodAgree longCb out lut ∧
      lut.input.take (blockSizeNoCrc crcTb crcCb longCb lastCb) =
        input.take (blockSizeNoCrc crcTb crcCb longCb lastCb) := by
  obtain ⟨hmod, hmin, -⟩ := cbsize_spec hsize
  have hlen := length_tcodLutBlock crcTbInit hmod hinput htb hcb hfit
  have henc : (tcodLutBlock crcTb crcTbInit crcCb input longCb lastCb).Encodes :=
    tcodLutBlock_encodes
  have htake : (tcodLutBlock crcTb crcTbInit crcCb input longCb lastCb).block.take _ = _ :=
    tcodLutBlock_take crcTbInit hinput
  have hrun := tcodEncodeLut_eq sse crcTb crcTbInit crcCb input lastCb hsize
  generalize tcodLutBlock crcTb crcTbInit crcCb input longCb lastCb = s at hlen henc htake hrun
  have hblock : 8 * s.block.length = longCb := by omega
  have htemplen : (bitInterleaverRun sse (tcodPerFw cblenIdx) s.block (longCb / 8) 0).length =
      longCb / 8 := length_bitInterleaverRun sse _
  refine ⟨_, _, hrun, ?_, tcodLutTail_agrees (tcodPerFw cblenIdx) henc (by omega) hblock
    ?_ ?_, ?_⟩
  · exact (congrArg (tcodEncode 6144 · longCb) (unpackVector_append _ hblock.ge)).trans
      (tcodEncode_unpackVector hsize s.block)
  · omega
  · intro i hi
    rw [bitAt_bitInterleaverRun sse (by omega), Nat.zero_add]
  · have hle : blockSizeNoCrc crcTb crcCb longCb lastCb ≤ s.block.length := by
      rw [hlen]
      exact Nat.div_le_div_right (by omega)
    exact (List.take_append_of_le_length hle).trans htake

/-- Two octets of data with the checksum of the transport block. -/
theorem tcodEncodeLut_agrees_short : ∃ lut out,
    tcodEncodeLut true Crc.crcTb 0 none [0x12, 0x34] 0 true = some lut ∧
      tcodEncode 6144 (unpackVector lut.input 40) 40 = some out ∧ TcodAgree 40 out lut ∧
      lut.input.take 2 = [0x12, 0x34] :=
  tcodEncodeLut_agrees true Crc.crcTb 0 none [0x12, 0x34] 0 40 true rfl (by decide) rfl
    (fun _ h => nomatch h) (by decide)

end SrsLte
