import Mathlib.Data.List.GetD
import Mathlib.Data.Nat.Bitwise
import SrsLte.WordBits

/-!
# Vectors of booleans

The operations of a bounded bitset on a plain vector of booleans of at most `N` elements, and the
element each of them leaves at a position.
-/

namespace SrsLte

namespace BoolVector

variable {v other : List Bool} {p pos startpos endpos : ℕ} {value : Bool}

/-- The element at position `p`; there is nothing beyond the end. -/
def test (v : List Bool) (p : ℕ) : Bool := v.getD p false

def resize (N : ℕ) (v : List Bool) (newSize : ℕ) : List Bool :=
  if N < newSize then v else v.take newSize ++ List.replicate (newSize - v.length) false

def set (v : List Bool) (pos : ℕ) : List Bool := List.set v pos true

def reset (v : List Bool) (pos : ℕ) : List Bool := List.set v pos false

def clear (v : List Bool) : List Bool := v.map fun _ => false

def flip (v : List Bool) : List Bool := v.map fun x => !x

def fill (v : List Bool) (startpos endpos : ℕ) (value : Bool) : List Bool :=
  if v.length < endpos ∨ endpos < startpos then v
  else v.mapIdx fun i x => if startpos ≤ i ∧ i < endpos then value else x

def or (v other : List Bool) : List Bool :=
  if other.length ≠ v.length then v else List.zipWith (fun x y => x || y) v other

def and (v other : List Bool) : List Bool :=
  if other.length ≠ v.length then v else List.zipWith (fun x y => x && y) v other

def anyRange (v : List Bool) (start stop : ℕ) : Bool :=
  if stop < start ∨ v.length < stop then false else ((v.drop start).take (stop - start)).any id

theorem test_of_le (hp : v.length ≤ p) : test v p = false := List.getD_eq_default v false hp

theorem lt_of_test (hp : test v p = true) : p < v.length := by
  by_contra hle
  rw [test_of_le (Nat.le_of_not_lt hle)] at hp
  cases hp

theorem ext_test (hlen : v.length = other.length) (h : ∀ p < v.length, test v p = test other p) :
    v = other := by
  apply List.ext_getElem hlen
  intro p hp hp'
  have := h p hp
  unfold test at this
  rwa [List.getD_eq_getElem v false hp, List.getD_eq_getElem other false hp'] at this

theorem test_resize {N newSize : ℕ} (hfit : newSize ≤ N) :
    test (resize N v newSize) p = (decide (p < newSize) && test v p) := by
  unfold resize test
  rw [if_neg (Nat.not_lt.mpr hfit)]
  simp only [List.getD_eq_getElem?_getD, List.getElem?_append, List.length_take,
    List.getElem?_take, List.getElem?_replicate]
  by_cases hp : p < newSize
  · by_cases hv : p < v.length
    · simp [hp, hv, Nat.lt_min]
    · simp only [hv, if_false, if_true, hp, Option.getD_none, decide_true, Bool.true_and,
        Nat.lt_min, and_false, List.getElem?_eq_none (Nat.le_of_not_lt hv)]
      split_ifs
      · rfl
      · rfl
  · simp only [hp, Nat.lt_min, false_and, if_false, decide_false, Bool.false_and]
    split_ifs
    · rfl
    · rfl

theorem length_resize {N newSize : ℕ} (hfit : newSize ≤ N) :
    (resize N v newSize).length = newSize := by
  unfold resize
  rw [if_neg (Nat.not_lt.mpr hfit), List.length_append, List.length_take, List.length_replicate]
  omega

theorem test_list_set (hpos : pos < v.length) :
    test (List.set v pos value) p = if p = pos then value else test v p := by
  unfold test
  simp only [List.getD_eq_getElem?_getD, List.getElem?_set]
  by_cases hp : p = pos
  · subst hp
    simp [hpos]
  · have hne : pos ≠ p := fun h => hp h.symm
    simp [hp, hne]

theorem test_map_of_lt (f : Bool → Bool) (hp : p < v.length) : test (v.map f) p = f (test v p) := by
  unfold test
  rw [List.getD_eq_getElem _ false (by rw [List.length_map]; exact hp),
    List.getD_eq_getElem v false hp, List.getElem_map]

theorem length_fill : (fill v startpos endpos value).length = v.length := by
  unfold fill
  split_ifs
  · rfl
  · exact List.length_mapIdx

theorem test_zipWith (f : Bool → Bool → Bool) (hlen : other.length = v.length)
    (hp : p < v.length) : test (List.zipWith f v other) p = f (test v p) (test other p) := by
  unfold test
  have hother : p < other.length := by omega
  have hzip : p < (List.zipWith f v other).length := by
    rw [List.length_zipWith]
    omega
  rw [List.getD_eq_getElem _ false hzip, List.getD_eq_getElem v false hp,
    List.getD_eq_getElem other false hother, List.getElem_zipWith]

end BoolVector

end SrsLte

/-!
`bounded_bitset<N, reversed>` keeps its bits in a fixed row of 64-bit words, of which the current
size uses the first few. An operation whose arguments are out of bounds prints an error and leaves
the bitset as it is.
-/

namespace SrsLte

open WordBits

structure Bitset (N : ℕ) (reversed : Bool) where
  buffer : ℕ → Word
  curSize : ℕ

namespace Bitset

variable {N : ℕ} {reversed : Bool}

/-- `bounded_bitset(cur_size_)`. -/
def ofSize (N : ℕ) (reversed : Bool) (curSize : ℕ) : Bitset N reversed := ⟨fun _ => 0, curSize⟩

/-- `nof_words_`. -/
def nofWords (b : Bitset N reversed) : ℕ := if 0 < b.curSize then (b.curSize - 1) / 64 + 1 else 0

/-- `max_nof_words_`. -/
def maxNofWords (N : ℕ) : ℕ := (N - 1) / 64 + 1

def maskbit (pos : ℕ) : Word := 1#64 <<< (pos % 64)

/-- `get_word_`: the word that holds bit `pos`. -/
def getWord (b : Bitset N reversed) (pos : ℕ) : Word := b.buffer (pos / 64)

/-- An assignment through the reference that `get_word_` returns. -/
def setWord (b : Bitset N reversed) (pos : ℕ) (w : Word) : Bitset N reversed :=
  { b with buffer := Function.update b.buffer (pos / 64) w }

/-- `sanitize_`. -/
def sanitize (b : Bitset N reversed) : Bitset N reversed :=
  let n := b.curSize % 64
  if n ≠ 0 then
    let last := b.nofWords - 1
    { b with buffer := Function.update b.buffer last (b.buffer last &&& ~~~((~~~0#64) <<< n)) }
  else b

/-- The bit of the buffer behind position `pos`. -/
def place (b : Bitset N reversed) (pos : ℕ) : ℕ := if reversed then b.curSize - 1 - pos else pos

/-- `test_`. -/
def testAt (b : Bitset N reversed) (pos : ℕ) : Bool :=
  decide (b.getWord (b.place pos) &&& maskbit (b.place pos) ≠ 0#64)

/-- `set_`. -/
def setAt (b : Bitset N reversed) (pos : ℕ) : Bitset N reversed :=
  b.setWord (b.place pos) (b.getWord (b.place pos) ||| maskbit (b.place pos))

/-- `reset_`. -/
def resetAt (b : Bitset N reversed) (pos : ℕ) : Bitset N reversed :=
  b.setWord (b.place pos) (b.getWord (b.place pos) &&& ~~~(maskbit (b.place pos)))

/-- The loop of `resize` hands the index of a word to `get_word_`, which takes it for the position
of a bit. -/
def resize (b : Bitset N reversed) (newSize : ℕ) : Bitset N reversed :=
  if N < newSize then b
  else if newSize = b.curSize then b
  else
    let b := sanitize { b with curSize := newSize }
    (List.range' b.nofWords (maxNofWords N - b.nofWords)).foldl (fun b i => b.setWord i 0) b

def set (b : Bitset N reversed) (pos : ℕ) : Bitset N reversed :=
  if b.curSize ≤ pos then b else b.setAt pos

/-- `reset(pos)`. -/
def reset (b : Bitset N reversed) (pos : ℕ) : Bitset N reversed :=
  if b.curSize ≤ pos then b else b.resetAt pos

/-- `reset()`. -/
def clear (b : Bitset N reversed) : Bitset N reversed :=
  { b with buffer := overWords (fun _ _ => 0) b.nofWords b.buffer }

def flip (b : Bitset N reversed) : Bitset N reversed :=
  sanitize { b with buffer := overWords (fun _ w => ~~~w) b.nofWords b.buffer }

def fill (b : Bitset N reversed) (startpos endpos : ℕ) (value : Bool) : Bitset N reversed :=
  if b.curSize < endpos ∨ endpos < startpos then b
  else if value then (List.range' startpos (endpos - startpos)).foldl setAt b
  else (List.range' startpos (endpos - startpos)).foldl resetAt b

/-- `operator|=`. -/
def orAssign (b other : Bitset N reversed) : Bitset N reversed :=
  if other.curSize ≠ b.curSize then b
  else { b with buffer := overWords (fun i w => w ||| other.buffer i) b.nofWords b.buffer }

/-- `operator&=`. -/
def andAssign (b other : Bitset N reversed) : Bitset N reversed :=
  if other.curSize ≠ b.curSize then b
  else { b with buffer := overWords (fun i w => w &&& other.buffer i) b.nofWords b.buffer }

def test (b : Bitset N reversed) (pos : ℕ) : Bool :=
  if b.curSize ≤ pos then false else b.testAt pos

def all (b : Bitset N reversed) : Bool :=
  let nw := b.nofWords
  let allset := ~~~0#64
  if nw = 0 then true
  else
    (List.range (nw - 1)).all (fun i => b.buffer i = allset)
      && b.buffer (nw - 1) = allset >>> (nw * 64 - b.curSize)

def any (b : Bitset N reversed) : Bool := (List.range b.nofWords).any fun i => b.buffer i ≠ 0

/-- `any(start, stop)`. -/
def anyRange (b : Bitset N reversed) (start stop : ℕ) : Bool :=
  if stop < start ∨ b.curSize < stop then false
  else (List.range' start (stop - start)).any b.testAt

def none (b : Bitset N reversed) : Bool := !b.any

def count (b : Bitset N reversed) : ℕ :=
  (List.range b.nofWords).foldl (fun result i => result + popCount 64 (b.buffer i)) 0

/-- `operator==`. -/
def eq (b other : Bitset N reversed) : Bool :=
  if b.curSize ≠ other.curSize then false
  else (List.range b.nofWords).all fun i => b.buffer i = other.buffer i

/-- `to_uint64`. -/
def toUint64 (b : Bitset N reversed) : Word := if 1 < b.nofWords then 0 else b.getWord 0

end Bitset

end SrsLte
