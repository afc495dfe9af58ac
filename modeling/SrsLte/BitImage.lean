import SrsLte.BitField
import SrsLte.BitString

/-!
# The bits of a memory as strings

`Holds mem pos s` says that the string `s` stands in the memory from bit `pos` on. Numbers and
octets in a memory are seen through the strings that stand for them.
-/

namespace BitField

open BitString

variable {mem mem' : Memory} {pos n v lim : ℕ} {s t : List Bool}

def image (mem : Memory) (i : ℕ) : Bool := OctetBits.bit (mem (i / 8)) (i % 8)

def Holds (mem : Memory) (pos : ℕ) (s : List Bool) : Prop :=
  ∀ k, k < s.length → image mem (pos + k) = s.getD k false

/-- Where the octet ends that a string of `n` bits ends in. -/
def octetEnd (n : ℕ) : ℕ := 8 * ((n + 7) / 8)

theorem le_octetEnd (n : ℕ) : n ≤ octetEnd n := by
  unfold octetEnd
  omega

theorem octetEnd_mono {m : ℕ} (h : m ≤ n) : octetEnd m ≤ octetEnd n := by
  unfold octetEnd
  omega

theorem octetEnd_aligned (n : ℕ) : octetEnd (8 * n) = 8 * n := by
  unfold octetEnd
  omega

theorem bit_eq_image (mem : Memory) (i : ℕ) : bit mem i = (image mem i).toNat := by
  rw [image, OctetBits.bit_eq_testBit _ (Nat.mod_lt _ (by decide)), Nat.toNat_testBit, bit]

theorem image_eq_iff (i j : ℕ) : image mem' i = image mem j ↔ bit mem' i = bit mem j := by
  rw [bit_eq_image, bit_eq_image]
  cases image mem' i <;> cases image mem j <;> decide

theorem agreeBelow_iff : AgreeBelow lim mem mem' ↔ ∀ i < lim, image mem' i = image mem i :=
  forall₂_congr fun i _ => (image_eq_iff i i).symm

theorem holds_nil (mem : Memory) (pos : ℕ) : Holds mem pos [] := fun _ hk => (nomatch hk)

theorem holds_append :
    Holds mem pos (s ++ t) ↔ Holds mem pos s ∧ Holds mem (pos + s.length) t := by
  constructor
  · intro h
    constructor
    · intro k hk
      rw [h k (by rw [List.length_append]; omega), List.getD_append _ _ _ _ hk]
    · intro k hk
      rw [Nat.add_assoc, h (s.length + k) (by rw [List.length_append]; omega),
        List.getD_append_right _ _ _ _ (Nat.le_add_right _ _), Nat.add_sub_cancel_left]
  · rintro ⟨hs, ht⟩ k hk
    rw [List.length_append] at hk
    by_cases hlt : k < s.length
    · rw [hs k hlt, List.getD_append _ _ _ _ hlt]
    · have hrest := ht (k - s.length) (by omega)
      rw [List.getD_append_right _ _ _ _ (Nat.not_lt.mp hlt), ← hrest]
      congr 1
      omega

theorem holds_singleton (b : Bool) : Holds mem pos [b] ↔ image mem pos = b := by
  constructor
  · intro h
    exact h 0 Nat.one_pos
  · intro h k hk
    obtain rfl : k = 0 := Nat.lt_one_iff.mp hk
    exact h

theorem Holds.agree (h : Holds mem pos s) (hagree : AgreeBelow lim mem mem')
    (hlim : pos + s.length ≤ lim) : Holds mem' pos s := by
  intro k hk
  rw [agreeBelow_iff.mp hagree _ (by omega), h k hk]

theorem image_write {p o : ℕ} {y : UInt8} (hn : o + n ≤ 8) (hpos : 0 < n)
    (hy : y.toNat = (mem p).toNat / 2 ^ (8 - o) * 2 ^ (8 - o) + v * 2 ^ (8 - o - n)) {i : ℕ}
    (hi : 8 * p + o + n ≤ i) :
    image (Function.update mem p y) i =
      if i < octetEnd (8 * p + o + n) then false else image mem i := by
  have hend : octetEnd (8 * p + o + n) = 8 * p + 8 := by
    unfold octetEnd
    omega
  rw [hend]
  split_ifs with hin
  · obtain rfl : i / 8 = p := by omega
    have hkept : 2 ^ (8 - o) = 2 ^ (8 - o - n) * 2 ^ n := by
      rw [← Nat.pow_add]
      congr 1
      omega
    have hlow : 2 ^ (8 - o - n) = 2 ^ (7 - i % 8) * 2 * 2 ^ (i % 8 - (o + n)) := by
      rw [← Nat.pow_succ, ← Nat.pow_add]
      congr 1
      omega
    generalize (mem (i / 8)).toNat / 2 ^ (8 - o) = q at hy
    have hfactor : y.toNat =
        2 ^ (7 - i % 8) * (2 * (2 ^ (i % 8 - (o + n)) * (q * 2 ^ n + v))) := by
      rw [hy, hkept, hlow]
      ring
    have hbit : bit (Function.update mem (i / 8) y) i = 0 := by
      rw [bit, Function.update_self, hfactor, Nat.mul_div_cancel_left _ (Nat.two_pow_pos _),
        Nat.mul_mod_right]
    rw [bit_eq_image] at hbit
    cases himage : image (Function.update mem (i / 8) y) i with
    | false => rfl
    | true =>
      rw [himage] at hbit
      cases hbit
  · unfold image
    rw [Function.update_of_ne (by omega)]

theorem holds_ofNat : Holds mem pos (ofNat n v) ↔ field mem pos n = v % 2 ^ n := by
  induction n generalizing v with
  | zero =>
    rw [Nat.pow_zero, Nat.mod_one]
    exact iff_of_true (holds_nil mem pos) rfl
  | succ n ih =>
    have hbit : (v.testBit 0).toNat = v % 2 := by
      rw [Nat.toNat_testBit, Nat.pow_zero, Nat.div_one]
    have hlt := bit_lt mem (pos + n)
    rw [ofNat_succ, holds_append, ih, length_ofNat, holds_singleton, field, Nat.pow_succ',
      Nat.mod_mul]
    have himage : image mem (pos + n) = v.testBit 0 ↔ bit mem (pos + n) = v % 2 := by
      rw [bit_eq_image, ← hbit]
      cases image mem (pos + n) <;> cases v.testBit 0 <;> decide
    rw [himage]
    constructor
    · rintro ⟨hfield, hlast⟩
      rw [hfield, hlast]
      omega
    · intro h
      omega

theorem ofNat_octet (x : UInt8) : ofNat 8 x.toNat = (List.range 8).map (OctetBits.bit x) := by
  refine List.map_congr_left fun i hi => ?_
  rw [OctetBits.bit_eq_testBit _ (List.mem_range.mp hi)]

theorem ofBytes_cons_eq (x : UInt8) (bytes : List UInt8) :
    ofBytes (x :: bytes) = ofNat 8 x.toNat ++ ofBytes bytes := by
  rw [ofBytes_cons, ofNat_octet]

theorem holds_ofBytes_cons (x : UInt8) (bytes : List UInt8) :
    Holds mem pos (ofBytes (x :: bytes)) ↔
      field mem pos 8 = x.toNat ∧ Holds mem (pos + 8) (ofBytes bytes) := by
  rw [ofBytes_cons_eq, holds_append, holds_ofNat, length_ofNat, Nat.mod_eq_of_lt x.toNat_lt]

theorem field_octet (mem : Memory) (p : ℕ) : field mem (8 * p) 8 = (mem p).toNat := by
  have hbyte := field_byte mem p 0 (n := 8) (by decide)
  rw [Nat.add_zero, Nat.sub_self, Nat.pow_zero, Nat.div_one] at hbyte
  rw [hbyte, Nat.mod_eq_of_lt (mem p).toNat_lt]

theorem holds_ofBytes {p : ℕ} {bytes : List UInt8} :
    Holds mem (8 * p) (ofBytes bytes) ↔ (List.range bytes.length).map (mem <| p + ·) = bytes := by
  induction bytes generalizing p with
  | nil => exact iff_of_true (holds_nil mem _) rfl
  | cons x bytes ih =>
    have hnext : 8 * p + 8 = 8 * (p + 1) := by omega
    have hmap : (List.range bytes.length).map ((mem <| p + ·) ∘ Nat.succ) =
        (List.range bytes.length).map (mem <| p + 1 + ·) :=
      List.map_congr_left fun i _ => congrArg mem (by simp only [Nat.succ_eq_add_one]; omega)
    rw [holds_ofBytes_cons, field_octet, UInt8.toNat_inj, hnext, ih, List.length_cons,
      List.range_succ_eq_map, List.map_cons, List.map_map, hmap, List.cons.injEq]
    exact Iff.rfl

end BitField
