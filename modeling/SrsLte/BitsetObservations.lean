import SrsLte.BitsetAgreement

/-!
# What a bounded bitset shows

A bitset that agrees with a vector answers every question as the vector does.
-/

namespace SrsLte

open WordBits

namespace Bitset

variable {N : ℕ} {b b' : Bitset N false} {v v' : List Bool} {pos start stop : ℕ}

def UnusedZero (b : Bitset N false) : Prop :=
  ∀ p < 64 * maxNofWords N, b.curSize ≤ p → bit b.buffer p = false

structure ShownAs (v : List Bool) (b : Bitset N false) : Prop where
  size : b.curSize = v.length
  test : ∀ pos, b.test pos = BoolVector.test v pos
  all : b.all = v.all id
  any : b.any = v.any id
  none : b.none = !v.any id
  anyRange : ∀ start stop, b.anyRange start stop = BoolVector.anyRange v start stop
  count : b.count = v.count true
  toUint64 : v.length ≤ 64 → b.toUint64 = (BitVec.ofBoolListLE v).setWidth 64

namespace Agree

theorem test_eq (h : Agree N v b) (pos : ℕ) : b.test pos = BoolVector.test v pos := by
  unfold Bitset.test
  rw [h.size]
  split_ifs with hout
  · exact (BoolVector.test_of_le hout).symm
  · rw [testAt_eq]
    exact h.bits pos (h.lt_bits (Nat.lt_of_not_le hout))

theorem unusedZero (h : Agree N v b) : UnusedZero b := by
  intro p hp hout
  rw [h.bits p hp]
  exact BoolVector.test_of_le (h.size.symm.trans_le hout)

theorem forall_test (v : List Bool) :
    (∀ x ∈ v, x = true) ↔ ∀ p < v.length, BoolVector.test v p = true := by
  unfold BoolVector.test
  constructor
  · intro hall p hp
    rw [List.getD_eq_getElem v false hp]
    exact hall _ (List.getElem_mem hp)
  · intro hall x hx
    obtain ⟨p, hp, rfl⟩ := List.getElem_of_mem hx
    rw [← List.getD_eq_getElem v false hp]
    exact hall p hp

theorem exists_test (v : List Bool) :
    (∃ x ∈ v, x = true) ↔ ∃ p, BoolVector.test v p = true := by
  unfold BoolVector.test
  constructor
  · rintro ⟨x, hx, rfl⟩
    obtain ⟨p, hp, heq⟩ := List.getElem_of_mem hx
    exact ⟨p, by rw [List.getD_eq_getElem v false hp, heq]⟩
  · rintro ⟨p, hp⟩
    have hlt : p < v.length := BoolVector.lt_of_test hp
    rw [List.getD_eq_getElem v false hlt] at hp
    exact ⟨v[p], List.getElem_mem hlt, hp⟩

theorem word_eq_iff (h : Agree N v b) {j : ℕ} (hj : j < b.nofWords) (w : Word) :
    b.buffer j = w ↔ ∀ k < 64, BoolVector.test v (64 * j + k) = w.getLsbD k := by
  have hbits : ∀ k < 64, (b.buffer j).getLsbD k = BoolVector.test v (64 * j + k) := by
    intro k hk
    rw [← bit_word b.buffer hk]
    exact h.bits_used (by omega)
  constructor
  · rintro rfl k hk
    exact (hbits k hk).symm
  · intro hall
    apply BitVec.eq_of_getLsbD_eq
    intro k hk
    rw [hbits k hk, hall k hk]

theorem all_eq (h : Agree N v b) : b.all = v.all id := by
  have hsize := h.size
  have hused := fun j => @lt_nofWords_iff N b j
  rw [Bool.eq_iff_iff, List.all_eq_true]
  simp only [id]
  rw [forall_test]
  unfold Bitset.all
  dsimp only
  by_cases hnone : b.nofWords = 0
  · rw [if_pos hnone]
    have hempty := hused 0
    constructor
    · intro _ p hp
      omega
    · intro _
      rfl
  · have hfirst : (∀ i < b.nofWords - 1, b.buffer i = ~~~0#64)
        ↔ ∀ p < 64 * (b.nofWords - 1), BoolVector.test v p = true := by
      constructor
      · intro hall p hp
        have hword := (h.word_eq_iff (by omega) _).mp (hall (p / 64) (by omega)) (p % 64) (by omega)
        rw [Nat.div_add_mod, BitVec.getLsbD_not, BitVec.getLsbD_zero, Bool.not_false, Bool.and_true,
          decide_eq_true (Nat.mod_lt p (by decide))] at hword
        exact hword
      · intro hall i hi
        rw [h.word_eq_iff (by omega)]
        intro k hk
        rw [hall _ (by omega), BitVec.getLsbD_not, BitVec.getLsbD_zero, decide_eq_true hk]
        rfl
    have hlast : b.buffer (b.nofWords - 1) = (~~~0#64) >>> (b.nofWords * 64 - b.curSize)
        ↔ ∀ p < v.length, 64 * (b.nofWords - 1) ≤ p → BoolVector.test v p = true := by
      have hlow := hused (b.nofWords - 1)
      have hhigh := hused b.nofWords
      rw [h.word_eq_iff (by omega)]
      constructor
      · intro hall p hp hle
        have hword := hall (p - 64 * (b.nofWords - 1)) (by omega)
        rw [getLsbD_high, Nat.add_sub_cancel' hle, decide_eq_true (by omega)] at hword
        exact hword
      · intro hall k hk
        rw [getLsbD_high]
        by_cases hin : 64 * (b.nofWords - 1) + k < v.length
        · rw [hall _ hin (Nat.le_add_right _ _), decide_eq_true (by omega)]
        · rw [BoolVector.test_of_le (Nat.le_of_not_lt hin), decide_eq_false (by omega)]
    rw [if_neg hnone, Bool.and_eq_true, List.all_eq_true, decide_eq_true_iff, hlast]
    simp only [List.mem_range, decide_eq_true_iff]
    rw [hfirst]
    have hlow := hused (b.nofWords - 1)
    constructor
    · rintro ⟨hbefore, hafter⟩ p hp
      rcases Nat.lt_or_ge p (64 * (b.nofWords - 1)) with hlt | hge
      · exact hbefore p hlt
      · exact hafter p hp hge
    · intro hall
      exact ⟨fun p hp => hall p (by omega), fun p hp _ => hall p hp⟩

theorem any_eq (h : Agree N v b) : b.any = v.any id := by
  have hsize := h.size
  rw [Bool.eq_iff_iff, List.any_eq_true]
  simp only [id]
  rw [exists_test]
  unfold Bitset.any
  rw [List.any_eq_true]
  constructor
  · rintro ⟨j, hj, hword⟩
    by_contra hnone
    refine of_decide_eq_true hword ?_
    rw [h.word_eq_iff (List.mem_range.mp hj)]
    intro k _
    rw [Bool.eq_false_iff.mpr fun hk => hnone ⟨_, hk⟩]
    exact BitVec.getLsbD_zero.symm
  · rintro ⟨p, hp⟩
    have hused : p / 64 < b.nofWords := by
      have hlt := BoolVector.lt_of_test hp
      rw [lt_nofWords_iff]
      omega
    refine ⟨p / 64, List.mem_range.mpr hused, decide_eq_true fun hzero => ?_⟩
    have hword := (h.word_eq_iff hused _).mp hzero (p % 64) (Nat.mod_lt p (by decide))
    rw [Nat.div_add_mod, hp] at hword
    exact absurd hword.symm (by rw [show (0 : Word) = 0#64 from rfl, BitVec.getLsbD_zero]; decide)

theorem anyRange_eq (h : Agree N v b) (start stop : ℕ) :
    b.anyRange start stop = BoolVector.anyRange v start stop := by
  unfold Bitset.anyRange BoolVector.anyRange
  rw [h.size]
  split_ifs with hout
  · rfl
  · rw [Bool.eq_iff_iff, List.any_eq_true, List.any_eq_true]
    constructor
    · rintro ⟨p, hp, hbit⟩
      obtain ⟨hlow, hhigh⟩ := List.mem_range'_1.mp hp
      have hlt : p < v.length := by omega
      rw [testAt_eq, h.bits p (h.lt_bits hlt), BoolVector.test, List.getD_eq_getElem v false hlt]
        at hbit
      refine ⟨v[p], ?_, hbit⟩
      rw [List.mem_take_iff_getElem]
      refine ⟨p - start, by rw [List.length_drop]; omega, ?_⟩
      rw [List.getElem_drop]
      simp only [Nat.add_sub_cancel' hlow]
    · rintro ⟨x, hx, hbit⟩
      obtain ⟨k, hk, rfl⟩ := List.mem_take_iff_getElem.mp hx
      rw [List.length_drop] at hk
      have hlt : start + k < v.length := by omega
      refine ⟨start + k, List.mem_range'_1.mpr ⟨by omega, by omega⟩, ?_⟩
      rw [testAt_eq, h.bits _ (h.lt_bits hlt), BoolVector.test, List.getD_eq_getElem v false hlt]
      rw [List.getElem_drop] at hbit
      exact hbit

theorem countP_test (v : List Bool) (m : ℕ) (hm : v.length ≤ m) :
    (List.range m).countP (BoolVector.test v) = v.count true := by
  induction v generalizing m with
  | nil =>
    rw [List.count_nil, List.countP_eq_zero]
    intro p _
    rw [BoolVector.test_of_le (Nat.zero_le p)]
    decide
  | cons x v ih =>
    obtain ⟨m, rfl⟩ := Nat.exists_eq_succ_of_ne_zero (Nat.pos_iff_ne_zero.mp
      (Nat.lt_of_lt_of_le (Nat.succ_pos v.length) hm))
    have hshift : BoolVector.test (x :: v) ∘ Nat.succ = BoolVector.test v := by
      funext p
      exact List.getD_cons_succ
    rw [List.range_succ_eq_map, List.countP_cons, List.countP_map, hshift,
      ih m (Nat.le_of_succ_le_succ hm), List.count_cons]
    cases x with
    | false => rfl
    | true => rfl

theorem count_eq (h : Agree N v b) : b.count = v.count true := by
  have hloop : ∀ n, (List.range n).foldl (fun result i => result + popCount 64 (b.buffer i)) 0
      = countBelow b.buffer (64 * n) := by
    intro n
    induction n with
    | zero => rfl
    | succ n ih => rw [List.range_succ, List.foldl_append, ih, countBelow_word]; rfl
  have hsize := h.size
  have hused := @lt_nofWords_iff N b b.nofWords
  unfold Bitset.count
  rw [hloop, ← countP_test v (64 * b.nofWords) (by omega), countBelow]
  apply List.countP_congr
  intro p hp
  have hlt := List.mem_range.mp hp
  rw [h.bits_used (by omega)]

theorem toUint64_eq (h : Agree N v b) (hlen : v.length ≤ 64) :
    b.toUint64 = (BitVec.ofBoolListLE v).setWidth 64 := by
  have hsize := h.size
  have hused := @lt_nofWords_iff N b 1
  unfold Bitset.toUint64
  rw [if_neg (by omega)]
  apply BitVec.eq_of_getLsbD_eq
  intro k hk
  have hbit := h.bits k (by unfold maxNofWords; omega)
  rw [BitVec.getLsbD_setWidth, BitVec.getLsbD_ofBoolListLE, decide_eq_true hk, Bool.true_and]
  rw [bit, Nat.div_eq_of_lt hk, Nat.mod_eq_of_lt hk] at hbit
  exact hbit

theorem shownAs (h : Agree N v b) : ShownAs v b where
  size := h.size
  test := h.test_eq
  all := h.all_eq
  any := h.any_eq
  none := congrArg (!·) h.any_eq
  anyRange := h.anyRange_eq
  count := h.count_eq
  toUint64 := h.toUint64_eq

theorem eq_eq (h : Agree N v b) (h' : Agree N v' b') : b.eq b' = decide (v = v') := by
  rw [Bool.eq_iff_iff, decide_eq_true_iff]
  unfold Bitset.eq
  rw [h.size, h'.size]
  by_cases hlen : v.length = v'.length
  · have hwords : b'.nofWords = b.nofWords := by
      unfold nofWords
      rw [h.size, h'.size, hlen]
    rw [if_neg (not_not.mpr hlen), List.all_eq_true]
    constructor
    · intro hall
      apply BoolVector.ext_test hlen
      intro p hp
      have hused : p / 64 < b.nofWords := by
        have hsize := h.size
        rw [lt_nofWords_iff]
        omega
      have hword := of_decide_eq_true (hall (p / 64) (List.mem_range.mpr hused))
      rw [← h.bits_used hused, ← h'.bits_used (hwords.symm ▸ hused), bit, bit, hword]
    · rintro rfl j hj
      have hj := List.mem_range.mp hj
      refine decide_eq_true ((h.word_eq_iff hj _).mpr fun k hk => ?_)
      exact ((h'.word_eq_iff (hwords.symm ▸ hj) _).mp rfl k hk)
  · rw [if_pos hlen]
    constructor
    · intro hfalse
      cases hfalse
    · intro heq
      exact absurd (congrArg List.length heq) hlen

end Agree

theorem ShownAs.agree (h : ShownAs v b) (hunused : UnusedZero b) (hfit : v.length ≤ N) :
    Agree N v b where
  size := h.size
  fits := hfit
  bits := by
    intro p hp
    by_cases hin : p < v.length
    · have htest := h.test p
      unfold Bitset.test at htest
      rw [h.size, if_neg (Nat.not_le.mpr hin), testAt_eq] at htest
      exact htest
    · have hout := Nat.le_of_not_lt hin
      rw [hunused p hp (h.size.trans_le hout), BoolVector.test_of_le hout]

end Bitset

end SrsLte
