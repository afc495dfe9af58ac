import Mathlib.Data.List.Count
import Mathlib.Data.Nat.Bitwise
import Mathlib.Tactic.Ring

/-!
# The bits of words

A row of 64-bit words as a row of bits, least significant bit first, and the number of the bits
that are set.
-/

namespace WordBits

abbrev Word := BitVec 64

variable {buffer buffer' : ℕ → Word} {w : Word} {p k j : ℕ}

/-- Bit `p` of a row of words. -/
def bit (buffer : ℕ → Word) (p : ℕ) : Bool := (buffer (p / 64)).getLsbD (p % 64)

theorem bit_word (buffer : ℕ → Word) (hk : k < 64) :
    bit buffer (64 * j + k) = (buffer j).getLsbD k := by
  have hdiv : (64 * j + k) / 64 = j := by omega
  have hmod : (64 * j + k) % 64 = k := by omega
  rw [bit, hdiv, hmod]

theorem getLsbD_one_shiftLeft (hk : k < 64) : (1#64 <<< k).getLsbD j = decide (j = k) := by
  rw [BitVec.getLsbD_shiftLeft, BitVec.getLsbD_one]
  by_cases hj : j = k
  · subst hj
    simp [hk]
  · by_cases hlt : j < k
    · simp [hlt, hj]
    · have hne : j - k ≠ 0 := by omega
      simp [hj, hne]

theorem and_mask_ne_zero (hk : k < 64) : w &&& 1#64 <<< k ≠ 0#64 ↔ w.getLsbD k = true := by
  constructor
  · intro hne
    by_contra hbit
    refine hne (BitVec.eq_of_getLsbD_eq fun j hj => ?_)
    rw [BitVec.getLsbD_and, getLsbD_one_shiftLeft hk, BitVec.getLsbD_zero]
    by_cases hj' : j = k
    · rw [hj', Bool.eq_false_iff.mpr hbit, Bool.false_and]
    · rw [decide_eq_false hj', Bool.and_false]
  · intro hbit hzero
    have hbit' : (w &&& 1#64 <<< k).getLsbD k = true := by
      rw [BitVec.getLsbD_and, getLsbD_one_shiftLeft hk, hbit, decide_eq_true rfl, Bool.true_and]
    rw [hzero, BitVec.getLsbD_zero] at hbit'
    cases hbit'

theorem getLsbD_low (hj : j < 64) : (~~~((~~~0#64) <<< k)).getLsbD j = decide (j < k) := by
  rw [BitVec.getLsbD_not, BitVec.getLsbD_shiftLeft, BitVec.getLsbD_not, BitVec.getLsbD_zero,
    decide_eq_true hj]
  by_cases hlt : j < k
  · simp only [hlt, decide_true, Bool.not_true, Bool.and_false, Bool.false_and, Bool.not_false,
      Bool.and_self]
  · have hsub : j - k < 64 := by omega
    simp only [hlt, hsub, decide_true, decide_false, Bool.not_true, Bool.not_false, Bool.and_self,
      Bool.and_false]

theorem getLsbD_high : ((~~~0#64) >>> k).getLsbD j = decide (k + j < 64) := by
  rw [BitVec.getLsbD_ushiftRight, BitVec.getLsbD_not, BitVec.getLsbD_zero, Bool.not_false,
    Bool.and_true]

theorem bit_update (v : Word) :
    bit (Function.update buffer j v) p
      = if p / 64 = j then v.getLsbD (p % 64) else bit buffer p := by
  unfold bit Function.update
  split_ifs with hword
  · subst hword
    rfl
  · rfl

/-- A loop that rewrites the first `n` words one after the other. -/
def overWords (f : ℕ → Word → Word) (n : ℕ) (buffer : ℕ → Word) : ℕ → Word :=
  (List.range n).foldl (fun buffer i => Function.update buffer i (f i (buffer i))) buffer

theorem overWords_apply (f : ℕ → Word → Word) (n : ℕ) (buffer : ℕ → Word) (j : ℕ) :
    overWords f n buffer j = if j < n then f j (buffer j) else buffer j := by
  induction n generalizing j with
  | zero => rw [if_neg (Nat.not_lt_zero j)]; rfl
  | succ n ih =>
    have hstep : overWords f (n + 1) buffer
        = Function.update (overWords f n buffer) n (f n (overWords f n buffer n)) := by
      unfold overWords
      rw [List.range_succ, List.foldl_append]
      rfl
    rw [hstep]
    by_cases hj : j = n
    · subst hj
      rw [Function.update_self, ih, if_neg (Nat.lt_irrefl j), if_pos (Nat.lt_succ_self j)]
    · rw [Function.update_of_ne hj, ih]
      have hiff : j < n ↔ j < n + 1 := by omega
      simp only [hiff]

theorem bit_overWords (f : ℕ → Word → Word) (n : ℕ) (buffer : ℕ → Word) (p : ℕ) :
    bit (overWords f n buffer) p
      = if p / 64 < n then (f (p / 64) (buffer (p / 64))).getLsbD (p % 64) else bit buffer p := by
  unfold bit
  rw [overWords_apply]
  split_ifs
  · rfl
  · rfl

/-- The set bits of a word, shifting it down until nothing is left; 64 shifts are enough. -/
def popCount : ℕ → Word → ℕ
  | 0, _ => 0
  | fuel + 1, w => if w = 0 then 0 else (w &&& 1).toNat + popCount fuel (w >>> 1)

theorem and_one_toNat (w : Word) : (w &&& 1).toNat = (w.getLsbD 0).toNat := by
  have hnat : (w &&& 1).toNat = w.toNat % 2 := by
    rw [BitVec.toNat_and]
    exact Nat.and_one_is_mod w.toNat
  rw [hnat, BitVec.getLsbD, Nat.testBit_zero]
  rcases Nat.mod_two_eq_zero_or_one w.toNat with hmod | hmod
  · rw [hmod]; rfl
  · rw [hmod]; rfl

theorem popCount_eq (fuel : ℕ) (w : Word) :
    popCount fuel w = (List.range fuel).countP fun k => w.getLsbD k := by
  induction fuel generalizing w with
  | zero => rfl
  | succ fuel ih =>
    rw [popCount]
    by_cases hw : w = 0
    · subst hw
      rw [if_pos rfl]
      symm
      rw [List.countP_eq_zero]
      intro k _
      simp
    · rw [if_neg hw, ih, and_one_toNat, List.range_succ_eq_map, List.countP_cons, List.countP_map]
      have hshift : (fun k => (w >>> 1).getLsbD k) = (fun k => w.getLsbD k) ∘ Nat.succ := by
        funext k
        rw [BitVec.getLsbD_ushiftRight, Function.comp, Nat.add_comm]
      rw [hshift]
      cases hbit : w.getLsbD 0 with
      | false => simp
      | true => simp [Nat.add_comm]

/-- The number of the set bits among the first `n`. -/
def countBelow (buffer : ℕ → Word) (n : ℕ) : ℕ := (List.range n).countP (bit buffer)

theorem countBelow_word (buffer : ℕ → Word) (j : ℕ) :
    countBelow buffer (64 * (j + 1))
      = countBelow buffer (64 * j) + popCount 64 (buffer j) := by
  have hrange : List.range (64 * (j + 1))
      = List.range (64 * j) ++ (List.range 64).map (64 * j + ·) := by
    rw [Nat.mul_succ, List.range_add]
  unfold countBelow
  rw [hrange, List.countP_append, List.countP_map, popCount_eq]
  congr 1
  apply List.countP_congr
  intro k hk
  rw [Function.comp, bit_word buffer (List.mem_range.mp hk)]

end WordBits
