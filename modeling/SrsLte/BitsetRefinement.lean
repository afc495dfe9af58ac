import Mathlib.Data.List.Induction
import SrsLte.BitsetAgreement
import SrsLte.BitsetObservations

/-!
# Resizing a bounded bitset

After it has changed the size, `resize` means to clear the words that the new size does not use. Its
loop passes the index of each such word to `get_word_`, which divides it by 64 once more: the words
that it clears are among the first, and the words beyond the size stay as they are.
-/

namespace SrsLte

open WordBits

namespace Bitset

variable {N newSize p j : ℕ} {b : Bitset N false} {v : List Bool}

def wordsOf (n : ℕ) : ℕ := (n + 63) / 64

/-- Word `j` is one that the loop of `resize` clears. -/
def Cleared (N newSize j : ℕ) : Prop := ∃ i < maxNofWords N, wordsOf newSize ≤ i ∧ i / 64 = j

instance : Decidable (Cleared N newSize j) :=
  inferInstanceAs (Decidable (∃ i < maxNofWords N, wordsOf newSize ≤ i ∧ i / 64 = j))

/-- The loop clears no word with a bit that is kept, and clears every word with a bit that is not in
the words of the new size. -/
def HarmlessResize (N : ℕ) (v : List Bool) (newSize : ℕ) : Prop :=
  newSize ≤ N → newSize ≠ v.length → ∀ p, BoolVector.test v p = true →
    (p < newSize → ¬Cleared N newSize (p / 64)) ∧
      (wordsOf newSize ≤ p / 64 → Cleared N newSize (p / 64))

theorem nofWords_eq : b.nofWords = wordsOf b.curSize := by
  unfold nofWords wordsOf
  split_ifs
  · omega
  · omega

theorem wordsOf_le (hfit : newSize ≤ N) : wordsOf newSize ≤ maxNofWords N := by
  unfold wordsOf maxNofWords
  omega

theorem curSize_clearWords (words : List ℕ) (b : Bitset N false) :
    (words.foldl (fun b i => b.setWord i 0) b).curSize = b.curSize := by
  induction words generalizing b with
  | nil => rfl
  | cons i words ih =>
    rw [List.foldl_cons, ih]
    rfl

theorem bit_clearWords (words : List ℕ) (b : Bitset N false) (p : ℕ) :
    bit (words.foldl (fun b i => b.setWord i 0) b).buffer p = true
      ↔ bit b.buffer p = true ∧ ∀ i ∈ words, i / 64 ≠ p / 64 := by
  induction words generalizing b with
  | nil =>
    constructor
    · intro hbit
      exact ⟨hbit, List.forall_mem_nil _⟩
    · exact And.left
  | cons i words ih =>
    have hstep : bit (b.setWord i 0).buffer p = true ↔ bit b.buffer p = true ∧ i / 64 ≠ p / 64 := by
      change bit (Function.update b.buffer (i / 64) 0#64) p = true ↔ _
      rw [bit_update, BitVec.getLsbD_zero]
      split_ifs with hword
      · simp [hword]
      · simp [Ne.symm hword]
    rw [List.foldl_cons, ih, hstep, List.forall_mem_cons, and_assoc]

theorem curSize_resize (hfit : newSize ≤ N) : (b.resize newSize).curSize = newSize := by
  unfold resize
  rw [if_neg (Nat.not_lt.mpr hfit)]
  split_ifs with hsame
  · exact hsame.symm
  · dsimp only
    rw [curSize_clearWords, curSize_sanitize]

theorem bit_resize (hfit : newSize ≤ N) (hne : newSize ≠ b.curSize) :
    bit (b.resize newSize).buffer p = true
      ↔ bit b.buffer p = true ∧ (p < newSize ∨ wordsOf newSize ≤ p / 64)
        ∧ ¬Cleared N newSize (p / 64) := by
  let resized : Bitset N false := { b with curSize := newSize }
  have hwords : resized.sanitize.nofWords = wordsOf newSize := by
    rw [nofWords_eq, curSize_sanitize]
  have hwords' : resized.nofWords = wordsOf newSize := nofWords_eq
  have hcleared : (∀ i ∈ List.range' (wordsOf newSize) (maxNofWords N - wordsOf newSize),
      i / 64 ≠ p / 64) ↔ ¬Cleared N newSize (p / 64) := by
    have hle := wordsOf_le hfit
    constructor
    · rintro hall ⟨i, hhigh, hlow, heq⟩
      exact hall i (List.mem_range'_1.mpr ⟨hlow, by omega⟩) heq
    · intro hnone i hi heq
      obtain ⟨hlow, hhigh⟩ := List.mem_range'_1.mp hi
      exact hnone ⟨i, by omega, hlow, heq⟩
  unfold resize
  rw [if_neg (Nat.not_lt.mpr hfit), if_neg hne]
  dsimp only
  rw [bit_clearWords, hwords, hcleared, bit_sanitize, Bool.and_eq_true, Bool.or_eq_true,
    decide_eq_true_iff, decide_eq_true_iff, hwords', and_assoc]

theorem agree_resize_iff (h : Agree N v b) :
    Agree N (BoolVector.resize N v newSize) (b.resize newSize) ↔ HarmlessResize N v newSize := by
  by_cases hfit : newSize ≤ N
  · by_cases hne : newSize = v.length
    · have hvector : BoolVector.resize N v newSize = v := by
        unfold BoolVector.resize
        rw [if_neg (Nat.not_lt.mpr hfit), hne, List.take_length, Nat.sub_self, List.replicate_zero,
          List.append_nil]
      have hbitset : b.resize newSize = b := by
        unfold resize
        rw [if_neg (Nat.not_lt.mpr hfit), if_pos (hne.trans h.size.symm)]
      rw [hvector, hbitset]
      exact ⟨fun _ _ hne' => absurd hne hne', fun _ => h⟩
    · have hne' : newSize ≠ b.curSize := fun heq => hne (heq.trans h.size)
      constructor
      · intro hagree _ _ p hp
        have hlt := h.lt_bits (BoolVector.lt_of_test hp)
        have hbit := hagree.bits p hlt
        rw [BoolVector.test_resize hfit, hp, Bool.and_true, Bool.eq_iff_iff, bit_resize hfit hne',
          decide_eq_true_iff, h.bits p hlt, hp] at hbit
        constructor
        · intro hkept
          exact (hbit.mpr hkept).2.2
        · intro hbeyond
          by_contra hcleared
          have hkept := hbit.mp ⟨rfl, Or.inr hbeyond, hcleared⟩
          unfold wordsOf at hbeyond
          omega
      · intro hharmless
        refine ⟨?_, ?_, ?_⟩
        · rw [curSize_resize hfit, BoolVector.length_resize hfit]
        · exact (BoolVector.length_resize hfit).trans_le hfit
        · intro p hp
          rw [BoolVector.test_resize hfit, Bool.eq_iff_iff, bit_resize hfit hne', Bool.and_eq_true,
            decide_eq_true_iff, h.bits p hp]
          constructor
          · rintro ⟨hset, hin, hcleared⟩
            refine ⟨?_, hset⟩
            rcases hin with hin | hbeyond
            · exact hin
            · exact absurd ((hharmless hfit hne p hset).2 hbeyond) hcleared
          · rintro ⟨hkept, hset⟩
            exact ⟨hset, Or.inl hkept, (hharmless hfit hne p hset).1 hkept⟩
  · have hvector : BoolVector.resize N v newSize = v := if_pos (Nat.lt_of_not_le hfit)
    have hbitset : b.resize newSize = b := if_pos (Nat.lt_of_not_le hfit)
    rw [hvector, hbitset]
    exact ⟨fun _ hfit' => absurd hfit' hfit, fun _ => h⟩

end Bitset

end SrsLte

/-!
A program keeps its bitsets in variables and works on them one operation after the other. The same
program runs on vectors of booleans. The two runs show the same, with the unused bits at zero all
along, exactly when every `resize` of the program is harmless.
-/

namespace SrsLte

open Bitset

/-- An operation on the variables `x` and `y`. -/
inductive BitsetOp where
  | resize (x newSize : ℕ)
  | set (x pos : ℕ)
  | reset (x pos : ℕ)
  | clear (x : ℕ)
  | flip (x : ℕ)
  | fill (x startpos endpos : ℕ) (value : Bool)
  | orAssign (x y : ℕ)
  | andAssign (x y : ℕ)
  /-- `x = ~y` -/
  | complement (x y : ℕ)
  /-- `x = y` -/
  | assign (x y : ℕ)

namespace BitsetOp

variable {N : ℕ} {reversed : Bool}

def target : BitsetOp → ℕ
  | resize x _ | set x _ | reset x _ | clear x | flip x | fill x _ _ _ | orAssign x _
  | andAssign x _ | complement x _ | assign x _ => x

def bitset (bs : ℕ → Bitset N reversed) : BitsetOp → Bitset N reversed
  | resize x newSize => (bs x).resize newSize
  | set x pos => (bs x).set pos
  | reset x pos => (bs x).reset pos
  | clear x => (bs x).clear
  | flip x => (bs x).flip
  | fill x startpos endpos value => (bs x).fill startpos endpos value
  | orAssign x y => (bs x).orAssign (bs y)
  | andAssign x y => (bs x).andAssign (bs y)
  | complement _ y => (bs y).flip
  | assign _ y => bs y

def vector (N : ℕ) (vs : ℕ → List Bool) : BitsetOp → List Bool
  | resize x newSize => BoolVector.resize N (vs x) newSize
  | set x pos => BoolVector.set (vs x) pos
  | reset x pos => BoolVector.reset (vs x) pos
  | clear x => BoolVector.clear (vs x)
  | flip x => BoolVector.flip (vs x)
  | fill x startpos endpos value => BoolVector.fill (vs x) startpos endpos value
  | orAssign x y => BoolVector.or (vs x) (vs y)
  | andAssign x y => BoolVector.and (vs x) (vs y)
  | complement _ y => BoolVector.flip (vs y)
  | assign _ y => vs y

/-- The operation, when it is a `resize`, is harmless. -/
def Harmless (N : ℕ) (vs : ℕ → List Bool) : BitsetOp → Prop
  | resize x newSize => HarmlessResize N (vs x) newSize
  | _ => True

end BitsetOp

section

variable {N : ℕ} {reversed : Bool}

def stepBitsets (bs : ℕ → Bitset N reversed) (op : BitsetOp) : ℕ → Bitset N reversed :=
  Function.update bs op.target (op.bitset bs)

def stepVectors (N : ℕ) (vs : ℕ → List Bool) (op : BitsetOp) : ℕ → List Bool :=
  Function.update vs op.target (op.vector N vs)

def runBitsets (N : ℕ) (reversed : Bool) (sizes : ℕ → Fin (N + 1)) (ops : List BitsetOp) :
    ℕ → Bitset N reversed :=
  ops.foldl stepBitsets fun x => Bitset.ofSize N reversed (sizes x)

def runVectors (N : ℕ) (sizes : ℕ → Fin (N + 1)) (ops : List BitsetOp) : ℕ → List Bool :=
  ops.foldl (stepVectors N) fun x => List.replicate (sizes x) false

/-- The bitsets show as the vectors, each on its own and any two of them compared. -/
structure ShownAsVectors (vs : ℕ → List Bool) (bs : ℕ → Bitset N false) : Prop where
  shown : ∀ x, ShownAs (vs x) (bs x)
  eq : ∀ x y, (bs x).eq (bs y) = decide (vs x = vs y)
  unused : ∀ x, UnusedZero (bs x)

end

section

variable {N : ℕ} {vs : ℕ → List Bool} {bs : ℕ → Bitset N false} {op : BitsetOp}
  {sizes : ℕ → Fin (N + 1)} {ops : List BitsetOp}

theorem agree_bitset_iff (h : ∀ x, Agree N (vs x) (bs x)) :
    Agree N (op.vector N vs) (op.bitset bs) ↔ op.Harmless N vs := by
  cases op with
  | resize x newSize => exact agree_resize_iff (h x)
  | set x pos => exact iff_of_true ((h x).set pos) trivial
  | reset x pos => exact iff_of_true ((h x).reset pos) trivial
  | clear x => exact iff_of_true (h x).clear trivial
  | flip x => exact iff_of_true (h x).flip trivial
  | fill x startpos endpos value => exact iff_of_true ((h x).fill startpos endpos value) trivial
  | orAssign x y => exact iff_of_true ((h x).orAssign (h y)) trivial
  | andAssign x y => exact iff_of_true ((h x).andAssign (h y)) trivial
  | complement x y => exact iff_of_true (h y).flip trivial
  | assign x y => exact iff_of_true (h y) trivial

theorem agree_step_iff (h : ∀ x, Agree N (vs x) (bs x)) :
    (∀ x, Agree N (stepVectors N vs op x) (stepBitsets bs op x)) ↔ op.Harmless N vs := by
  rw [← agree_bitset_iff h]
  unfold stepVectors stepBitsets
  constructor
  · intro hall
    have htarget := hall op.target
    rwa [Function.update_self, Function.update_self] at htarget
  · intro htarget x
    by_cases hx : x = op.target
    · subst hx
      rw [Function.update_self, Function.update_self]
      exact htarget
    · rw [Function.update_of_ne hx, Function.update_of_ne hx]
      exact h x

theorem length_vector_le (h : ∀ x, (vs x).length ≤ N) : (op.vector N vs).length ≤ N := by
  cases op with
  | resize x newSize =>
    by_cases hfit : newSize ≤ N
    · exact (BoolVector.length_resize hfit).trans_le hfit
    · rw [BitsetOp.vector, BoolVector.resize, if_pos (Nat.lt_of_not_le hfit)]
      exact h x
  | set x pos => exact List.length_set.trans_le (h x)
  | reset x pos => exact List.length_set.trans_le (h x)
  | clear x => exact (List.length_map _).trans_le (h x)
  | flip x => exact (List.length_map _).trans_le (h x)
  | fill x startpos endpos value => exact BoolVector.length_fill.trans_le (h x)
  | orAssign x y =>
    rw [BitsetOp.vector, BoolVector.or]
    split_ifs
    · exact h x
    · rw [List.length_zipWith]
      exact (Nat.min_le_left _ _).trans (h x)
  | andAssign x y =>
    rw [BitsetOp.vector, BoolVector.and]
    split_ifs
    · exact h x
    · rw [List.length_zipWith]
      exact (Nat.min_le_left _ _).trans (h x)
  | complement x y => exact (List.length_map _).trans_le (h y)
  | assign x y => exact h y

theorem shownAsVectors_iff (hfit : ∀ x, (vs x).length ≤ N) :
    ShownAsVectors vs bs ↔ ∀ x, Agree N (vs x) (bs x) := by
  constructor
  · intro h x
    exact (h.shown x).agree (h.unused x) (hfit x)
  · intro h
    exact ⟨fun x => (h x).shownAs, fun x y => (h x).eq_eq (h y), fun x => (h x).unusedZero⟩

theorem runVectors_concat (pre : List BitsetOp) (op : BitsetOp) :
    runVectors N sizes (pre ++ [op]) = stepVectors N (runVectors N sizes pre) op := by
  unfold runVectors
  rw [List.foldl_append]
  rfl

theorem runBitsets_concat (pre : List BitsetOp) (op : BitsetOp) :
    runBitsets N false sizes (pre ++ [op]) = stepBitsets (runBitsets N false sizes pre) op := by
  unfold runBitsets
  rw [List.foldl_append]
  rfl

theorem length_runVectors_le (ops : List BitsetOp) (x : ℕ) :
    (runVectors N sizes ops x).length ≤ N := by
  induction ops using List.reverseRecOn generalizing x with
  | nil => exact List.length_replicate.trans_le (Nat.le_of_lt_succ (sizes x).isLt)
  | append_singleton ops op ih =>
    rw [runVectors_concat]
    unfold stepVectors
    by_cases hx : x = op.target
    · subst hx
      rw [Function.update_self]
      exact length_vector_le ih
    · rw [Function.update_of_ne hx]
      exact ih x

/-- Every `resize` of the program is harmless where it is reached. -/
def HarmlessRun (N : ℕ) (sizes : ℕ → Fin (N + 1)) (ops : List BitsetOp) : Prop :=
  ∀ pre x newSize post, ops = pre ++ BitsetOp.resize x newSize :: post →
    HarmlessResize N (runVectors N sizes pre x) newSize

theorem HarmlessRun.harmless (h : HarmlessRun N sizes ops) {pre post : List BitsetOp}
    (hops : ops = pre ++ op :: post) : op.Harmless N (runVectors N sizes pre) := by
  cases op with
  | resize x newSize => exact h pre x newSize post hops
  | _ => trivial

end

end SrsLte
