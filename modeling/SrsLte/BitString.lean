import Mathlib.Data.List.Basic
import Mathlib.Data.List.Induction
import Mathlib.Data.Nat.Bitwise
import Mathlib.Tactic.IntervalCases
import SrsLte.ByteBuffer

/-!
# The bits of octets

Bits are numbered from the most significant one of the first octet.
-/

namespace OctetBits

/-- The octet with only bit `i` set. -/
def mask (i : ℕ) : UInt8 := 0x80 >>> UInt8.ofNat i

def bit (b : UInt8) (i : ℕ) : Bool := b &&& mask i != 0

/-- The octet whose bits are `f 0` to `f 7`, put together by or. -/
def pack (f : ℕ → Bool) : UInt8 :=
  (List.range 8).foldl (fun acc i => acc ||| if f i then mask i else 0) 0

/-- Bit `i` of a list of octets; past the end they are zero. -/
def bitAt (bs : List UInt8) (i : ℕ) : Bool := bit (bs.getD (i / 8) 0) (i % 8)

theorem forall_octet {P : UInt8 → Prop} (h : ∀ n < 256, P (UInt8.ofNat n)) (b : UInt8) : P b := by
  rw [← UInt8.ofNat_toNat (x := b)]
  exact h b.toNat b.toNat_lt

theorem toNat_mask {i : ℕ} (hi : i < 8) : (mask i).toNat = 2 ^ (7 - i) := by
  interval_cases i <;> rfl

theorem toNat_and_mask (b : UInt8) {i : ℕ} (hi : i < 8) :
    (b &&& mask i).toNat = (b.toNat.testBit (7 - i)).toNat * 2 ^ (7 - i) := by
  rw [UInt8.toNat_and, toNat_mask hi, Nat.and_two_pow]

theorem bit_eq_testBit (b : UInt8) {i : ℕ} (hi : i < 8) : bit b i = b.toNat.testBit (7 - i) := by
  have hand := toNat_and_mask b hi
  unfold bit
  cases h : b.toNat.testBit (7 - i) with
  | false =>
    rw [h, Bool.toNat_false, Nat.zero_mul] at hand
    rw [UInt8.toNat_inj.mp (hand.trans UInt8.toNat_zero.symm)]
    rfl
  | true =>
    rw [h, Bool.toNat_true, Nat.one_mul] at hand
    refine bne_iff_ne.mpr fun hzero => ?_
    rw [hzero] at hand
    exact absurd hand (Nat.two_pow_pos _).ne

theorem bit_zero (i : ℕ) : bit 0 i = false := by
  unfold bit
  rw [UInt8.zero_and]
  rfl

theorem bit_or (a b : UInt8) {i : ℕ} (hi : i < 8) : bit (a ||| b) i = (bit a i || bit b i) := by
  rw [bit_eq_testBit _ hi, bit_eq_testBit _ hi, bit_eq_testBit _ hi, UInt8.toNat_or,
    Nat.testBit_or]

theorem bit_mask {i j : ℕ} (hi : i < 8) (hj : j < 8) : bit (mask j) i = decide (i = j) := by
  rw [bit_eq_testBit _ hi, toNat_mask hj, Nat.testBit_two_pow]
  exact decide_eq_decide.mpr (by omega)

theorem bit_pack (f : ℕ → Bool) {i : ℕ} (hi : i < 8) : bit (pack f) i = f i := by
  have hfirst : ∀ n ≤ 8, bit ((List.range n).foldl
      (fun acc j => acc ||| if f j then mask j else 0) 0) i = (decide (i < n) && f i) := by
    intro n hn
    induction n with
    | zero => exact bit_zero i
    | succ n ih =>
      have hone : bit (if f n then mask n else 0) i = (decide (i = n) && f i) := by
        rcases eq_or_ne i n with rfl | hne
        · cases hf : f i with
          | false => rw [if_neg Bool.false_ne_true, bit_zero, Bool.and_false]
          | true => rw [if_pos rfl, bit_mask hi hi, Bool.and_true]
        · rw [decide_eq_false hne, Bool.false_and]
          split
          · exact (bit_mask hi hn).trans (decide_eq_false hne)
          · exact bit_zero i
      rw [List.range_succ, List.foldl_append, List.foldl_cons, List.foldl_nil, bit_or _ _ hi,
        ih (by omega), hone, ← Bool.and_or_distrib_right, ← Bool.decide_or]
      congr 2
      exact propext (by omega)
  rw [pack, hfirst 8 le_rfl, decide_eq_true hi, Bool.true_and]

theorem pack_congr {f g : ℕ → Bool} (h : ∀ i < 8, f i = g i) : pack f = pack g :=
  List.foldl_ext _ _ _ fun acc i hi => by rw [h i (List.mem_range.mp hi)]

theorem bitAt_append_left {a : List UInt8} (b : List UInt8) {i : ℕ} (hi : i < 8 * a.length) :
    bitAt (a ++ b) i = bitAt a i := by
  unfold bitAt
  rw [List.getD_append _ _ _ _ (by omega)]

theorem bitAt_append_right (a b : List UInt8) (i : ℕ) :
    bitAt (a ++ b) (8 * a.length + i) = bitAt b i := by
  unfold bitAt
  rw [Nat.mul_add_div (by decide), Nat.mul_add_mod, List.getD_append_right _ _ _ _ (by omega),
    Nat.add_sub_cancel_left]

end OctetBits

/-!
Octets as strings of bits, most significant bit first, and numbers in fields of a given width.
-/

namespace BitString

/-- `srslte_bit_unpack_vector`. -/
def ofBytes (bytes : List UInt8) : List Bool :=
  bytes.flatMap fun b => (List.range 8).map (OctetBits.bit b)

/-- `srslte_bit_pack_vector`, of a whole number of octets. -/
def toBytes (bits : List Bool) : List UInt8 :=
  (List.range (bits.length / 8)).map fun i =>
    OctetBits.pack fun j => bits.getD (8 * i + j) false

/-- `srslte_bit_unpack`: the lowest `n` bits of `v`. -/
def ofNat (n v : ℕ) : List Bool := (List.range n).map fun i => v.testBit (n - 1 - i)

/-- `srslte_bit_pack`. -/
def toNat (bits : List Bool) : ℕ := bits.foldl (fun v b => 2 * v + b.toNat) 0

@[simp]
theorem length_ofBytes (bytes : List UInt8) : (ofBytes bytes).length = 8 * bytes.length := by
  induction bytes with
  | nil => rfl
  | cons b bytes ih =>
    rw [ofBytes, List.flatMap_cons, List.length_append, List.length_map, List.length_range,
      List.length_cons]
    change 8 + (ofBytes bytes).length = _
    omega

@[simp]
theorem length_ofNat (n v : ℕ) : (ofNat n v).length = n := by
  rw [ofNat, List.length_map, List.length_range]

@[simp]
theorem length_toBytes (bits : List Bool) : (toBytes bits).length = bits.length / 8 := by
  rw [toBytes, List.length_map, List.length_range]

theorem toNat_append_singleton (bits : List Bool) (b : Bool) :
    toNat (bits ++ [b]) = 2 * toNat bits + b.toNat := by
  rw [toNat, List.foldl_append]
  rfl

theorem ofNat_succ (n v : ℕ) : ofNat (n + 1) v = ofNat n (v / 2) ++ [v.testBit 0] := by
  rw [ofNat, List.range_succ, List.map_append, List.map_singleton, ofNat]
  congr 1
  · refine List.map_congr_left fun i hi => ?_
    have hlt := List.mem_range.mp hi
    rw [← Nat.testBit_succ]
    congr 1
    omega
  · rw [Nat.add_sub_cancel, Nat.sub_self]

theorem toNat_ofNat (n v : ℕ) : toNat (ofNat n v) = v % 2 ^ n := by
  induction n generalizing v with
  | zero => rw [pow_zero, Nat.mod_one]; rfl
  | succ n ih =>
    have hbit : (v.testBit 0).toNat = v % 2 := by rw [Nat.toNat_testBit, pow_zero, Nat.div_one]
    rw [ofNat_succ, toNat_append_singleton, ih, hbit, pow_succ', Nat.mod_mul]
    omega

theorem ofNat_toNat (bits : List Bool) : ofNat bits.length (toNat bits) = bits := by
  induction bits using List.reverseRecOn with
  | nil => rfl
  | append_singleton bits b ih =>
    have hb := Bool.toNat_lt b
    rw [List.length_append, List.length_singleton, ofNat_succ, toNat_append_singleton,
      show (2 * toNat bits + b.toNat) / 2 = toNat bits by omega, ih, Nat.testBit_zero]
    cases b <;> simp
theorem toNat_lt (bits : List Bool) : toNat bits < 2 ^ bits.length := by
  induction bits using List.reverseRecOn with
  | nil => exact Nat.one_pos
  | append_singleton bits b ih =>
    have hb := Bool.toNat_lt b
    rw [toNat_append_singleton, List.length_append, List.length_singleton, pow_succ]
    omega

theorem toNat_take_ofNat (n v : ℕ) (rest : List Bool) :
    toNat ((ofNat n v ++ rest).take n) = v % 2 ^ n := by
  rw [List.take_left' (length_ofNat n v), toNat_ofNat]

theorem drop_ofNat_append (n v : ℕ) (rest : List Bool) : (ofNat n v ++ rest).drop n = rest :=
  List.drop_left' (length_ofNat n v)

theorem ofBytes_cons (x : UInt8) (bytes : List UInt8) :
    ofBytes (x :: bytes) = (List.range 8).map (OctetBits.bit x) ++ ofBytes bytes := rfl

theorem ofBytes_append_singleton (bytes : List UInt8) (x : UInt8) :
    ofBytes (bytes ++ [x]) = ofBytes bytes ++ ofNat 8 x.toNat := by
  rw [ofBytes, List.flatMap_append, List.flatMap_singleton, ofBytes, ofNat]
  congr 1
  refine List.map_congr_left fun i hi => ?_
  exact OctetBits.bit_eq_testBit x (List.mem_range.mp hi)

theorem take_ofBytes (bytes : List UInt8) (n : ℕ) :
    (ofBytes bytes).take (8 * n) = ofBytes (bytes.take n) := by
  induction n generalizing bytes with
  | zero => rfl
  | succ n ih =>
    cases bytes with
    | nil => rfl
    | cons x bytes =>
      have hcount : ((List.range 8).map (OctetBits.bit x)).length = 8 := by
        rw [List.length_map, List.length_range]
      rw [ofBytes_cons, List.take_succ_cons, ofBytes_cons, ← ih, Nat.mul_succ, Nat.add_comm,
        List.take_append, hcount, Nat.add_sub_cancel_left, List.take_of_length_le (by omega)]

theorem toBytes_append {octet : List Bool} (h : octet.length = 8) (bits : List Bool) :
    toBytes (octet ++ bits) = OctetBits.pack (octet.getD · false) :: toBytes bits := by
  have hcount : (octet ++ bits).length / 8 = bits.length / 8 + 1 := by
    rw [List.length_append]
    omega
  rw [toBytes, hcount, List.range_succ_eq_map, List.map_cons, List.map_map, toBytes]
  congr 1
  · refine OctetBits.pack_congr fun j hj => ?_
    rw [Nat.mul_zero, Nat.zero_add, List.getD_append _ _ _ _ (by omega)]
  · refine List.map_congr_left fun i _ => congrArg OctetBits.pack (funext fun j => ?_)
    rw [List.getD_append_right _ _ _ _ (by omega)]
    congr 1
    omega

theorem ofBytes_toBytes {bits : List Bool} {n : ℕ} (h : bits.length = 8 * n) :
    ofBytes (toBytes bits) = bits := by
  induction n generalizing bits with
  | zero =>
    rw [List.eq_nil_of_length_eq_zero h]
    rfl
  | succ n ih =>
    have htake : (bits.take 8).length = 8 := by
      rw [List.length_take]
      omega
    have hdrop : (bits.drop 8).length = 8 * n := by
      rw [List.length_drop]
      omega
    have hoctet : (List.range 8).map (OctetBits.bit (OctetBits.pack ((bits.take 8).getD · false))) =
        bits.take 8 := by
      refine List.ext_getElem (by simp [htake]) fun i hi hi' => ?_
      rw [List.getElem_map, List.getElem_range, OctetBits.bit_pack _ (by simpa using hi),
        List.getD_eq_getElem _ _ hi']
    rw [← List.take_append_drop 8 bits, toBytes_append htake, ofBytes_cons, ih hdrop, hoctet]

end BitString
