import SrsLte.BitsetWords

/-!
# A bounded bitset that agrees with a vector

A bitset agrees with a vector when the two have the same size, the bits of the buffer below that
size are the elements of the vector and every other bit of the buffer is zero. Every operation but
`resize` keeps the agreement.
-/

namespace SrsLte

open WordBits

namespace Bitset

variable {N : ℕ} {b other : Bitset N false} {p pos j : ℕ}

theorem lt_nofWords_iff : j < b.nofWords ↔ 64 * j < b.curSize := by
  unfold nofWords
  split_ifs with hsize
  · omega
  · omega

theorem nofWords_le (hfit : b.curSize ≤ N) : b.nofWords ≤ maxNofWords N := by
  unfold nofWords maxNofWords
  split_ifs
  · omega
  · omega

theorem testAt_eq (b : Bitset N false) (pos : ℕ) : b.testAt pos = bit b.buffer pos := by
  have hmask := and_mask_ne_zero (w := b.buffer (pos / 64)) (Nat.mod_lt pos (by decide : 0 < 64))
  change decide (b.buffer (pos / 64) &&& 1#64 <<< (pos % 64) ≠ 0#64) = bit b.buffer pos
  rw [Bool.eq_iff_iff, decide_eq_true_iff]
  exact hmask

theorem bit_setAt : bit (b.setAt pos).buffer p = (decide (p = pos) || bit b.buffer p) := by
  change bit (Function.update b.buffer (pos / 64)
    (b.buffer (pos / 64) ||| 1#64 <<< (pos % 64))) p = _
  rw [bit_update]
  split_ifs with hword
  · rw [BitVec.getLsbD_or, getLsbD_one_shiftLeft (Nat.mod_lt pos (by decide)), ← hword]
    have hiff : (p % 64 = pos % 64) ↔ p = pos := by omega
    rw [Bool.or_comm]
    simp only [hiff]
    rfl
  · have hne : p ≠ pos := fun h => hword (congrArg (· / 64) h)
    rw [decide_eq_false hne, Bool.false_or]

theorem bit_resetAt : bit (b.resetAt pos).buffer p = (!decide (p = pos) && bit b.buffer p) := by
  change bit (Function.update b.buffer (pos / 64)
    (b.buffer (pos / 64) &&& ~~~(1#64 <<< (pos % 64)))) p = _
  rw [bit_update]
  split_ifs with hword
  · have hlt : p % 64 < 64 := Nat.mod_lt p (by decide)
    rw [BitVec.getLsbD_and, BitVec.getLsbD_not,
      getLsbD_one_shiftLeft (Nat.mod_lt pos (by decide)), ← hword, decide_eq_true hlt,
      Bool.true_and]
    have hiff : (p % 64 = pos % 64) ↔ p = pos := by omega
    rw [Bool.and_comm]
    simp only [hiff]
    rfl
  · have hne : p ≠ pos := fun h => hword (congrArg (· / 64) h)
    rw [decide_eq_false hne, Bool.not_false, Bool.true_and]

theorem bit_sanitize (b : Bitset N false) (p : ℕ) :
    bit b.sanitize.buffer p
      = (bit b.buffer p && (decide (p < b.curSize) || decide (b.nofWords ≤ p / 64))) := by
  have hwords := @lt_nofWords_iff N b (p / 64)
  unfold sanitize
  by_cases hpart : b.curSize % 64 ≠ 0
  · have hlast : b.nofWords - 1 = b.curSize / 64 := by
      unfold nofWords
      split_ifs
      · omega
      · omega
    dsimp only
    rw [if_pos hpart, hlast]
    change bit (Function.update b.buffer (b.curSize / 64)
      (b.buffer (b.curSize / 64) &&& ~~~((~~~0#64) <<< (b.curSize % 64)))) p = _
    rw [bit_update]
    split_ifs with hword
    · have hin : ¬b.nofWords ≤ p / 64 := by omega
      have hiff : p % 64 < b.curSize % 64 ↔ p < b.curSize := by omega
      rw [BitVec.getLsbD_and, getLsbD_low (Nat.mod_lt p (by decide)), decide_eq_false hin,
        Bool.or_false, ← hword]
      simp only [hiff]
      rfl
    · have hone : p < b.curSize ∨ b.nofWords ≤ p / 64 := by omega
      rw [← Bool.decide_or, decide_eq_true hone, Bool.and_true]
  · dsimp only
    rw [if_neg hpart]
    have hone : p < b.curSize ∨ b.nofWords ≤ p / 64 := by omega
    rw [← Bool.decide_or, decide_eq_true hone, Bool.and_true]

theorem curSize_sanitize (b : Bitset N false) : b.sanitize.curSize = b.curSize := by
  unfold sanitize
  dsimp only
  split_ifs
  · rfl
  · rfl

structure Agree (N : ℕ) (v : List Bool) (b : Bitset N false) : Prop where
  size : b.curSize = v.length
  fits : v.length ≤ N
  bits : ∀ p < 64 * maxNofWords N, bit b.buffer p = BoolVector.test v p

namespace Agree

variable {v w : List Bool}

theorem lt_bits (h : Agree N v b) (hp : p < v.length) : p < 64 * maxNofWords N := by
  have hfits := h.fits
  unfold maxNofWords
  omega

theorem bits_used (h : Agree N v b) (hp : p / 64 < b.nofWords) :
    bit b.buffer p = BoolVector.test v p := by
  have hwords := nofWords_le (h.size.trans_le h.fits)
  exact h.bits p (by omega)

theorem ofSize {n : ℕ} (hfit : n ≤ N) :
    Agree N (List.replicate n false) (Bitset.ofSize N false n) where
  size := (List.length_replicate).symm
  fits := (List.length_replicate (n := n) (a := false)).trans_le hfit
  bits := by
    intro p _
    have hzero : bit (Bitset.ofSize N false n).buffer p = false := BitVec.getLsbD_zero
    have hvector : BoolVector.test (List.replicate n false) p = false := by
      unfold BoolVector.test
      rw [List.getD_eq_getElem?_getD, List.getElem?_replicate]
      split_ifs
      · rfl
      · rfl
    rw [hzero, hvector]

section

variable (h : Agree N v b)
include h

theorem setAt (hpos : pos < v.length) :
    Agree N (List.set v pos true) (b.setAt pos) where
  size := h.size.trans List.length_set.symm
  fits := List.length_set.trans_le h.fits
  bits := by
    intro p hp
    rw [bit_setAt, BoolVector.test_list_set hpos, h.bits p hp]
    split_ifs with heq
    · rw [decide_eq_true heq, Bool.true_or]
    · rw [decide_eq_false heq, Bool.false_or]

theorem resetAt (hpos : pos < v.length) :
    Agree N (List.set v pos false) (b.resetAt pos) where
  size := h.size.trans List.length_set.symm
  fits := List.length_set.trans_le h.fits
  bits := by
    intro p hp
    rw [bit_resetAt, BoolVector.test_list_set hpos, h.bits p hp]
    split_ifs with heq
    · rw [decide_eq_true heq, Bool.not_true, Bool.false_and]
    · rw [decide_eq_false heq, Bool.not_false, Bool.true_and]

theorem set (pos : ℕ) : Agree N (BoolVector.set v pos) (b.set pos) := by
  unfold Bitset.set BoolVector.set
  split_ifs with hout
  · rw [List.set_eq_of_length_le (h.size.symm.trans_le hout)]
    exact h
  · exact h.setAt (by rw [← h.size]; omega)

theorem reset (pos : ℕ) : Agree N (BoolVector.reset v pos) (b.reset pos) := by
  unfold Bitset.reset BoolVector.reset
  split_ifs with hout
  · rw [List.set_eq_of_length_le (h.size.symm.trans_le hout)]
    exact h
  · exact h.resetAt (by rw [← h.size]; omega)

theorem overWords (f : ℕ → Word → Word) (hlen : w.length = v.length)
    (hf : ∀ p, p / 64 < b.nofWords →
      (f (p / 64) (b.buffer (p / 64))).getLsbD (p % 64) = BoolVector.test w p) :
    Agree N w { b with buffer := WordBits.overWords f b.nofWords b.buffer } where
  size := h.size.trans hlen.symm
  fits := hlen.trans_le h.fits
  bits := by
    intro p hp
    change bit (WordBits.overWords f b.nofWords b.buffer) p = BoolVector.test w p
    rw [bit_overWords]
    split_ifs with hused
    · exact hf p hused
    · have hout : v.length ≤ p := by
        have hwords := @lt_nofWords_iff N b (p / 64)
        have hsize := h.size
        omega
      rw [h.bits p hp, BoolVector.test_of_le hout, BoolVector.test_of_le (hlen.trans_le hout)]

theorem clear : Agree N (BoolVector.clear v) b.clear := by
  refine h.overWords _ (List.length_map _) fun p _ => ?_
  change (0#64).getLsbD (p % 64) = _
  rw [BitVec.getLsbD_zero]
  by_cases hp : p < v.length
  · exact (BoolVector.test_map_of_lt (fun _ => false) hp).symm
  · exact (BoolVector.test_of_le (by rw [BoolVector.clear, List.length_map]; omega)).symm

theorem zipWords (hother : Agree N w other) (f : Word → Word → Word)
    (g : Bool → Bool → Bool) (hzero : g false false = false)
    (hf : ∀ x y k, (f x y).getLsbD k = g (x.getLsbD k) (y.getLsbD k))
    (hlen : w.length = v.length) :
    Agree N (List.zipWith g v w)
      { b with
        buffer := WordBits.overWords (fun i x => f x (other.buffer i)) b.nofWords b.buffer } := by
  have hwords : other.nofWords = b.nofWords := by
    unfold nofWords
    rw [h.size, hother.size, hlen]
  have hzip : (List.zipWith g v w).length = v.length := by
    rw [List.length_zipWith, hlen, Nat.min_self]
  refine h.overWords _ hzip fun p hp => ?_
  have hbit : (b.buffer (p / 64)).getLsbD (p % 64) = BoolVector.test v p := h.bits_used hp
  have hbit' : (other.buffer (p / 64)).getLsbD (p % 64) = BoolVector.test w p :=
    hother.bits_used (hwords.symm ▸ hp)
  rw [hf, hbit, hbit']
  by_cases hpv : p < v.length
  · exact (BoolVector.test_zipWith _ hlen hpv).symm
  · have hout := Nat.le_of_not_lt hpv
    rw [BoolVector.test_of_le hout, BoolVector.test_of_le (hlen.trans_le hout),
      BoolVector.test_of_le (hzip.trans_le hout), hzero]

theorem orAssign (hother : Agree N w other) :
    Agree N (BoolVector.or v w) (b.orAssign other) := by
  have hsizes : other.curSize ≠ b.curSize ↔ w.length ≠ v.length := by
    rw [h.size, hother.size]
  unfold Bitset.orAssign BoolVector.or
  by_cases hne : w.length ≠ v.length
  · rw [if_pos (hsizes.mpr hne), if_pos hne]
    exact h
  · rw [if_neg (mt hsizes.mp hne), if_neg hne]
    exact h.zipWords hother _ _ rfl (fun x y k => BitVec.getLsbD_or) (not_not.mp hne)

theorem andAssign (hother : Agree N w other) :
    Agree N (BoolVector.and v w) (b.andAssign other) := by
  have hsizes : other.curSize ≠ b.curSize ↔ w.length ≠ v.length := by
    rw [h.size, hother.size]
  unfold Bitset.andAssign BoolVector.and
  by_cases hne : w.length ≠ v.length
  · rw [if_pos (hsizes.mpr hne), if_pos hne]
    exact h
  · rw [if_neg (mt hsizes.mp hne), if_neg hne]
    exact h.zipWords hother _ _ rfl (fun x y k => BitVec.getLsbD_and) (not_not.mp hne)

theorem flip : Agree N (BoolVector.flip v) b.flip where
  size := by
    unfold Bitset.flip
    rw [curSize_sanitize, BoolVector.flip, List.length_map]
    exact h.size
  fits := (List.length_map _).trans_le h.fits
  bits := by
    intro p hp
    have hsize := h.size
    have hwords := @lt_nofWords_iff N b (p / 64)
    unfold Bitset.flip
    rw [bit_sanitize]
    change (bit (WordBits.overWords (fun _ w => ~~~w) b.nofWords b.buffer) p
      && (decide (p < b.curSize) || decide (b.nofWords ≤ p / 64))) = _
    rw [bit_overWords]
    by_cases hpv : p < v.length
    · have hused : p / 64 < b.nofWords := by omega
      have hbit : (b.buffer (p / 64)).getLsbD (p % 64) = BoolVector.test v p := h.bits_used hused
      rw [if_pos hused, BitVec.getLsbD_not, hbit, decide_eq_true (Nat.mod_lt p (by decide)),
        Bool.true_and, decide_eq_true (hsize.symm ▸ hpv), Bool.true_or, Bool.and_true]
      exact (BoolVector.test_map_of_lt _ hpv).symm
    · have hout := Nat.le_of_not_lt hpv
      have hflip : BoolVector.test (BoolVector.flip v) p = false :=
        BoolVector.test_of_le ((List.length_map _).trans_le hout)
      rw [hflip]
      split_ifs with hused
      · rw [decide_eq_false (by omega), decide_eq_false (by omega), Bool.or_false, Bool.and_false]
      · rw [h.bits p hp, BoolVector.test_of_le hout, Bool.false_and]

end

theorem fill_loop (write : Bitset N false → ℕ → Bitset N false) (value : Bool)
    (hwrite : ∀ {v b pos}, Agree N v b → pos < v.length →
      Agree N (List.set v pos value) (write b pos))
    (startpos count : ℕ) (h : Agree N v b) (hin : startpos + count ≤ v.length) :
    Agree N (v.mapIdx fun i x => if startpos ≤ i ∧ i < startpos + count then value else x)
      ((List.range' startpos count).foldl write b) := by
  induction count with
  | zero =>
    have hsame :
        (v.mapIdx fun i x => if startpos ≤ i ∧ i < startpos + 0 then value else x) = v := by
      apply List.ext_getElem List.length_mapIdx
      intro i _ _
      have hout : ¬(startpos ≤ i ∧ i < startpos + 0) := by omega
      rw [List.getElem_mapIdx, if_neg hout]
    rw [hsame]
    exact h
  | succ count ih =>
    have hprev := ih (by omega)
    have hin' : startpos + count < (v.mapIdx fun i x =>
        if startpos ≤ i ∧ i < startpos + count then value else x).length := by
      rw [List.length_mapIdx]
      omega
    have hstep := hwrite hprev hin'
    have hset : List.set
        (v.mapIdx fun i x => if startpos ≤ i ∧ i < startpos + count then value else x)
        (startpos + count) value
        = v.mapIdx fun i x => if startpos ≤ i ∧ i < startpos + (count + 1) then value else x := by
      apply List.ext_getElem
      · rw [List.length_set, List.length_mapIdx, List.length_mapIdx]
      intro i _ _
      rw [List.getElem_set, List.getElem_mapIdx, List.getElem_mapIdx]
      split_ifs
      · rfl
      · omega
      · rfl
      · omega
      · omega
      · rfl
    rw [List.range'_concat, List.foldl_append, ← hset, Nat.one_mul]
    exact hstep

theorem fill (h : Agree N v b) (startpos endpos : ℕ) (value : Bool) :
    Agree N (BoolVector.fill v startpos endpos value) (b.fill startpos endpos value) := by
  unfold Bitset.fill BoolVector.fill
  rw [h.size]
  by_cases hout : v.length < endpos ∨ endpos < startpos
  · rw [if_pos hout, if_pos hout]
    exact h
  · rw [if_neg hout, if_neg hout]
    have hend : startpos + (endpos - startpos) = endpos := by omega
    have hloop := fun write hwrite => fill_loop write value hwrite startpos (endpos - startpos) h
      (by omega)
    rw [hend] at hloop
    cases value with
    | true => exact hloop Bitset.setAt fun h hpos => h.setAt hpos
    | false => exact hloop Bitset.resetAt fun h hpos => h.resetAt hpos

end Agree

end Bitset

end SrsLte
