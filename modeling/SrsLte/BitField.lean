import Mathlib.Data.Nat.Bitwise
import Mathlib.Tactic.Ring

/-!
# Bit fields of a memory of bytes

The bits of a memory are numbered from the most significant bit of the first byte. A field is the
number that some consecutive bits stand for, most significant bit first.
-/

namespace BitField

abbrev Memory := ℕ → UInt8

variable {mem mem' mem'' : Memory} {pos m n lim : ℕ}

def bit (mem : Memory) (i : ℕ) : ℕ := (mem (i / 8)).toNat / 2 ^ (7 - i % 8) % 2

/-- The number in the `n` bits from `pos` on. -/
def field (mem : Memory) (pos : ℕ) : ℕ → ℕ
  | 0 => 0
  | n + 1 => 2 * field mem pos n + bit mem (pos + n)

theorem bit_lt (mem : Memory) (i : ℕ) : bit mem i < 2 := Nat.mod_lt _ (by decide)

theorem field_lt (mem : Memory) (pos n : ℕ) : field mem pos n < 2 ^ n := by
  induction n with
  | zero => exact Nat.one_pos
  | succ n ih =>
    have hbit := bit_lt mem (pos + n)
    rw [field, Nat.pow_succ]
    omega

theorem field_add (mem : Memory) (pos m n : ℕ) :
    field mem pos (m + n) = field mem pos m * 2 ^ n + field mem (pos + m) n := by
  induction n with
  | zero => rw [Nat.add_zero, Nat.pow_zero, Nat.mul_one, field, Nat.add_zero]
  | succ n ih =>
    rw [← Nat.add_assoc, field, ih, field, Nat.pow_succ, Nat.add_assoc pos m n]
    ring

theorem field_add_div (mem : Memory) (pos m n : ℕ) :
    field mem pos (m + n) / 2 ^ n = field mem pos m := by
  rw [field_add, Nat.add_comm, Nat.add_mul_div_right _ _ (Nat.two_pow_pos n),
    Nat.div_eq_of_lt (field_lt _ _ _), Nat.zero_add]

theorem field_byte (mem : Memory) (p o : ℕ) {n : ℕ} (hn : o + n ≤ 8) :
    field mem (8 * p + o) n = (mem p).toNat / 2 ^ (8 - o - n) % 2 ^ n := by
  induction n with
  | zero => rw [field, Nat.pow_zero, Nat.mod_one]
  | succ n ih =>
    have hdiv : (8 * p + o + n) / 8 = p := by omega
    have hmod : (8 * p + o + n) % 8 = o + n := by omega
    have hexp : 8 - o - n = 7 - (o + n) + 1 := by omega
    have hexp' : 8 - o - (n + 1) = 7 - (o + n) := by omega
    rw [field, ih (Nat.le_of_succ_le hn), bit, hdiv, hmod, hexp, hexp', Nat.pow_succ,
      ← Nat.div_div_eq_div_mul, Nat.pow_succ, Nat.mul_comm (2 ^ n) 2]
    generalize (mem p).toNat / 2 ^ (7 - (o + n)) = q
    rw [Nat.mod_mul, Nat.add_comm]

def AgreeBelow (lim : ℕ) (mem mem' : Memory) : Prop := ∀ i < lim, bit mem' i = bit mem i

theorem AgreeBelow.refl (lim : ℕ) (mem : Memory) : AgreeBelow lim mem mem := fun _ _ => rfl

theorem AgreeBelow.mono (h : AgreeBelow lim mem mem') (hpos : pos ≤ lim) :
    AgreeBelow pos mem mem' := fun i hi => h i (Nat.lt_of_lt_of_le hi hpos)

theorem AgreeBelow.trans (h : AgreeBelow lim mem mem') (h' : AgreeBelow lim mem' mem'') :
    AgreeBelow lim mem mem'' := fun i hi => (h' i hi).trans (h i hi)

theorem AgreeBelow.field (h : AgreeBelow lim mem mem') (hpos : pos + n ≤ lim) :
    field mem' pos n = field mem pos n := by
  induction n with
  | zero => rfl
  | succ n ih =>
    rw [BitField.field, BitField.field, ih (Nat.le_of_succ_le hpos), h (pos + n) hpos]

theorem agreeBelow_update {p o : ℕ} {y : UInt8} (ho : o < 8)
    (hy : y.toNat / 2 ^ (8 - o) = (mem p).toNat / 2 ^ (8 - o)) :
    AgreeBelow (8 * p + o) mem (Function.update mem p y) := by
  intro i hi
  unfold bit
  by_cases hp : i / 8 = p
  · subst hp
    have hexp : 7 - i % 8 = (8 - o) + (o - 1 - i % 8) := by omega
    rw [Function.update_self, hexp, Nat.pow_add, ← Nat.div_div_eq_div_mul,
      ← Nat.div_div_eq_div_mul, hy]
  · rw [Function.update_of_ne hp]

theorem and_low (x k : ℕ) : x &&& (1 <<< k - 1) = x % 2 ^ k := by
  rw [Nat.one_shiftLeft, Nat.and_two_pow_sub_one_eq_mod]

theorem and_high {x k : ℕ} (hx : x < 256) (hk : k ≤ 8) :
    x &&& (256 - 1 <<< k) = x / 2 ^ k * 2 ^ k := by
  have hmask : 256 - 1 <<< k = (2 ^ (8 - k) - 1) * 2 ^ k := by
    rw [Nat.one_shiftLeft, Nat.sub_mul, Nat.one_mul, ← Nat.pow_add, Nat.sub_add_cancel hk]
  refine Nat.eq_of_testBit_eq fun j => ?_
  rw [hmask, Nat.testBit_and, Nat.testBit_mul_two_pow, Nat.testBit_mul_two_pow,
    Nat.testBit_two_pow_sub_one, Nat.testBit_div_two_pow]
  rcases Nat.lt_or_ge j k with h | h
  · rw [decide_eq_false (Nat.not_le.mpr h), Bool.false_and, Bool.false_and, Bool.and_false]
  · rw [decide_eq_true h, Bool.true_and, Bool.true_and, Nat.sub_add_cancel h]
    rcases Nat.lt_or_ge j 8 with h8 | h8
    · rw [decide_eq_true (by omega), Bool.and_true]
    · rw [Nat.testBit_lt_two_pow (hx.trans_le (Nat.pow_le_pow_right two_pos h8)),
        Bool.false_and]

theorem and_middle (x n s : ℕ) :
    (x &&& (1 <<< (n + s) - 1 <<< s)) >>> s = x / 2 ^ s % 2 ^ n := by
  have hmask : (1 <<< (n + s) - 1 <<< s) >>> s = 2 ^ n - 1 := by
    rw [Nat.one_shiftLeft, Nat.one_shiftLeft, Nat.shiftRight_eq_div_pow, Nat.pow_add]
    have hfactor : 2 ^ n * 2 ^ s - 2 ^ s = (2 ^ n - 1) * 2 ^ s := by
      rw [Nat.sub_mul, Nat.one_mul]
    rw [hfactor, Nat.mul_div_cancel _ (Nat.two_pow_pos s)]
  rw [Nat.shiftRight_and_distrib, hmask, Nat.and_two_pow_sub_one_eq_mod,
    Nat.shiftRight_eq_div_pow]

theorem shifted_lt {v k n : ℕ} (hn : n ≤ k) (hv : v < 2 ^ n) : v * 2 ^ (k - n) < 2 ^ k := by
  have hpow : 2 ^ k = 2 ^ n * 2 ^ (k - n) := by rw [← Nat.pow_add, Nat.add_sub_cancel' hn]
  rw [hpow]
  exact Nat.mul_lt_mul_of_pos_right hv (Nat.two_pow_pos _)

theorem merged {x v k n : ℕ} (hn : n ≤ k) (hv : v < 2 ^ n) :
    (x / 2 ^ k * 2 ^ k + v * 2 ^ (k - n)) / 2 ^ k = x / 2 ^ k ∧
      (x / 2 ^ k * 2 ^ k + v * 2 ^ (k - n)) / 2 ^ (k - n) % 2 ^ n = v := by
  have hpow : 2 ^ k = 2 ^ n * 2 ^ (k - n) := by rw [← Nat.pow_add, Nat.add_sub_cancel' hn]
  have hlt := shifted_lt hn hv
  constructor
  · rw [Nat.add_comm, Nat.add_mul_div_right _ _ (Nat.two_pow_pos k), Nat.div_eq_of_lt hlt,
      Nat.zero_add]
  · rw [Nat.add_comm]
    have hsplit : v * 2 ^ (k - n) + x / 2 ^ k * 2 ^ k =
        (v + x / 2 ^ k * 2 ^ n) * 2 ^ (k - n) := by
      rw [Nat.add_mul, Nat.mul_assoc, ← hpow]
    rw [hsplit, Nat.mul_div_cancel _ (Nat.two_pow_pos _), Nat.add_mul_mod_self_right,
      Nat.mod_eq_of_lt hv]

theorem field_write {p o : ℕ} {y : UInt8} (ho : o < 8) {v : ℕ} (hn : o + n ≤ 8) (hv : v < 2 ^ n)
    (hy : y.toNat = (mem p).toNat / 2 ^ (8 - o) * 2 ^ (8 - o) + v * 2 ^ (8 - o - n)) :
    AgreeBelow (8 * p + o) mem (Function.update mem p y) ∧
      field (Function.update mem p y) (8 * p + o) n = v := by
  obtain ⟨hkept, hwritten⟩ := merged (x := (mem p).toNat) (k := 8 - o) (by omega) hv
  rw [← hy] at hkept hwritten
  constructor
  · exact agreeBelow_update ho hkept
  · rw [field_byte _ _ _ hn, Function.update_self]
    exact hwritten

theorem write_lt {x v k : ℕ} (hx : x < 256) (hk : k ≤ 8) (hn : n ≤ k) (hv : v < 2 ^ n) :
    x / 2 ^ k * 2 ^ k + v * 2 ^ (k - n) < 256 := by
  have hlow := shifted_lt hn hv
  have hhigh : x / 2 ^ k < 2 ^ (8 - k) := by
    apply Nat.div_lt_of_lt_mul
    rw [← Nat.pow_add, Nat.add_sub_cancel' hk]
    exact hx
  calc x / 2 ^ k * 2 ^ k + v * 2 ^ (k - n) < x / 2 ^ k * 2 ^ k + 2 ^ k :=
        Nat.add_lt_add_left hlow _
    _ = (x / 2 ^ k + 1) * 2 ^ k := by rw [Nat.add_mul, Nat.one_mul]
    _ ≤ 2 ^ (8 - k) * 2 ^ k := Nat.mul_le_mul_right _ hhigh
    _ = 256 := by rw [← Nat.pow_add, Nat.sub_add_cancel hk]

end BitField
