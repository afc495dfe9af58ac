import Mathlib.Algebra.Field.ZMod
import Mathlib.RingTheory.AdjoinRoot
import SrsLte.BitString

/-!
# Polynomials over two elements

A number is the polynomial of its bits, and exclusive or is the sum. Residues modulo a polynomial
with a constant term are computed in the quotient, where the variable is a unit.
-/

noncomputable section

namespace BinaryPolynomial

open Polynomial

def ofBit (b : Bool) : ZMod 2 := if b then 1 else 0

def ofNat (n : ℕ) : (ZMod 2)[X] := ∑ i ∈ Finset.range n, monomial i (ofBit (n.testBit i))

def ofBits (bits : List Bool) : (ZMod 2)[X] := bits.foldl (fun p b => p * X + C (ofBit b)) 0

theorem ofBit_xor (a b : Bool) : ofBit (a ^^ b) = ofBit a + ofBit b := by
  cases a <;> cases b <;> decide

theorem ofBit_injective {a b : Bool} (h : ofBit a = ofBit b) : a = b := by
  cases a <;> cases b
  · rfl
  · exact absurd h (by decide)
  · exact absurd h (by decide)
  · rfl

theorem coeff_ofNat (n i : ℕ) : (ofNat n).coeff i = ofBit (n.testBit i) := by
  unfold ofNat
  simp only [finsetSum_coeff, coeff_monomial, Finset.sum_ite_eq', Finset.mem_range]
  split_ifs with hlt
  · rfl
  · rw [Nat.testBit_lt_two_pow (Nat.lt_of_le_of_lt (Nat.not_lt.mp hlt) Nat.lt_two_pow_self)]
    rfl

@[simp]
theorem ofNat_zero : ofNat 0 = 0 := rfl

theorem ofNat_one : ofNat 1 = 1 := by
  simp [ofNat, ofBit]

theorem ofNat_injective {a b : ℕ} (h : ofNat a = ofNat b) : a = b := by
  apply Nat.eq_of_testBit_eq
  intro i
  apply ofBit_injective
  rw [← coeff_ofNat, ← coeff_ofNat, h]

theorem ofNat_xor (a b : ℕ) : ofNat (a ^^^ b) = ofNat a + ofNat b := by
  ext i
  rw [coeff_add, coeff_ofNat, coeff_ofNat, coeff_ofNat, Nat.testBit_xor, ofBit_xor]

theorem ofNat_mul_two_pow_add (a : ℕ) {b k : ℕ} (hb : b < 2 ^ k) :
    ofNat (a * 2 ^ k + b) = ofNat a * X ^ k + ofNat b := by
  ext i
  rw [coeff_add, coeff_mul_X_pow', coeff_ofNat, coeff_ofNat, coeff_ofNat, Nat.mul_comm,
    Nat.testBit_two_pow_mul_add a hb]
  split_ifs with hlow hle hle
  · omega
  · rw [zero_add]
  · rw [Nat.testBit_lt_two_pow (Nat.lt_of_lt_of_le hb (Nat.pow_le_pow_right (by decide) hle))]
    exact (add_zero _).symm
  · omega

theorem ofNat_mul_two_pow (a k : ℕ) : ofNat (a * 2 ^ k) = ofNat a * X ^ k := by
  have h := ofNat_mul_two_pow_add a (Nat.two_pow_pos k)
  rwa [Nat.add_zero, ofNat_zero, add_zero] at h

theorem degree_ofNat_lt {n k : ℕ} (h : n < 2 ^ k) : (ofNat n).degree < k := by
  apply (degree_lt_iff_coeff_zero _ k).mpr
  intro i hi
  rw [coeff_ofNat,
    Nat.testBit_lt_two_pow (Nat.lt_of_lt_of_le h (Nat.pow_le_pow_right (by decide) hi))]
  rfl

theorem degree_ofNat {n k : ℕ} (h : n / 2 ^ k = 1) : (ofNat n).degree = k ∧ (ofNat n).Monic := by
  have hsplit : ofNat n = X ^ k + ofNat (n % 2 ^ k) := by
    conv_lhs => rw [← Nat.div_add_mod n (2 ^ k), h, Nat.mul_comm]
    rw [ofNat_mul_two_pow_add 1 (Nat.mod_lt n (Nat.two_pow_pos k)), ofNat_one, one_mul]
  have hlow := degree_ofNat_lt (Nat.mod_lt n (Nat.two_pow_pos k))
  rw [hsplit]
  refine ⟨?_, monic_X_pow_add hlow⟩
  rw [degree_add_eq_left_of_degree_lt (by rwa [degree_X_pow]), degree_X_pow]

theorem ofBits_append_singleton (bits : List Bool) (b : Bool) :
    ofBits (bits ++ [b]) = ofBits bits * X + C (ofBit b) := by
  rw [ofBits, List.foldl_append]
  rfl

theorem ofNat_toNat (bits : List Bool) : ofNat (BitString.toNat bits) = ofBits bits := by
  induction bits using List.reverseRecOn with
  | nil => rfl
  | append_singleton bits b ih =>
    have hlt : b.toNat < 2 ^ 1 := Bool.toNat_lt b
    have hbit : ofNat b.toNat = C (ofBit b) := by
      cases b
      · exact C_0.symm
      · exact ofNat_one.trans C_1.symm
    have hsum := ofNat_mul_two_pow_add (BitString.toNat bits) hlt
    rw [pow_one, pow_one, Nat.mul_comm] at hsum
    rw [BitString.toNat_append_singleton, hsum, ofBits_append_singleton, ih, hbit]

theorem ofBits_ofNat (n v : ℕ) : ofBits (BitString.ofNat n v) = ofNat (v % 2 ^ n) := by
  rw [← ofNat_toNat, BitString.toNat_ofNat]

theorem ofBits_append (a b : List Bool) : ofBits (a ++ b) = ofBits a * X ^ b.length + ofBits b := by
  induction b using List.reverseRecOn with
  | nil =>
    rw [List.append_nil, List.length_nil, pow_zero, mul_one]
    exact (add_zero _).symm
  | append_singleton b bit ih =>
    rw [← List.append_assoc, ofBits_append_singleton, ih, ofBits_append_singleton,
      List.length_append, List.length_singleton, pow_succ, add_mul, mul_assoc, add_assoc]

section Residues

variable {g : (ZMod 2)[X]}

theorem add_self (p : AdjoinRoot g) : p + p = 0 := by
  have htwo : (2 : AdjoinRoot g) = AdjoinRoot.of g 2 := (map_ofNat (AdjoinRoot.of g) 2).symm
  rw [← two_mul, htwo, show (2 : ZMod 2) = 0 by decide, map_zero, zero_mul]

theorem eq_modByMonic {p r : (ZMod 2)[X]} (hg : g.Monic) (hr : r.degree < g.degree)
    (h : AdjoinRoot.mk g r = AdjoinRoot.mk g p) : r = p %ₘ g := by
  obtain ⟨q, hq⟩ := AdjoinRoot.mk_eq_mk.mp h
  have hdiv : r + g * -q = p := by
    rw [mul_neg, ← hq]
    ring
  exact (div_modByMonic_unique (-q) r hg ⟨hdiv, hr⟩).2.symm

theorem isUnit_root (h : g.coeff 0 = 1) : IsUnit (AdjoinRoot.root g) := by
  have hzero : AdjoinRoot.mk g (divX g) * AdjoinRoot.root g + 1 = 0 := by
    rw [← AdjoinRoot.mk_X, ← map_mul, ← map_one (AdjoinRoot.mk g), ← map_add, ← C_1, ← h,
      divX_mul_X_add, AdjoinRoot.mk_self]
  apply IsUnit.of_mul_eq_one (-AdjoinRoot.mk g (divX g))
  rw [mul_neg, mul_comm]
  exact (eq_neg_of_add_eq_zero_right hzero).symm

end Residues

end BinaryPolynomial

end
