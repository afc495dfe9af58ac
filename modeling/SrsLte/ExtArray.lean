import Mathlib.Data.Nat.Basic
import Mathlib.Order.Basic
import Mathlib.Logic.Function.Basic
import SrsLte.EventRun

/-!
# The extensible array of the ASN.1 library

`ext_array` keeps few elements in an inline buffer and more of them on the heap. An element without
a defined value is `none`. On the heap the capacity lies in the memory of the inline buffer, whose
elements have no defined value any more.
-/

namespace SrsLte

open EventRun (Along forall_prefix_iff along_congr)
open Function (update update_self update_of_ne)

variable {T : Type} {N : ℕ}

inductive ExtStorage (T : Type)
  | small (data : ℕ → Option T)
  | heap (cap : ℕ) (data : ℕ → Option T)

namespace ExtStorage

/-- What `head` points at. -/
def head : ExtStorage T → ℕ → Option T
  | small data => data
  | heap _ data => data

def smallBuffer : ExtStorage T → ℕ → Option T
  | small data => data
  | heap _ _ => fun _ => none

def capacity (N : ℕ) : ExtStorage T → ℕ
  | small _ => N
  | heap cap _ => cap

def withHead : ExtStorage T → (ℕ → Option T) → ExtStorage T
  | small _, data => small data
  | heap cap _, data => heap cap data

end ExtStorage

structure ExtArray (T : Type) (N : ℕ) where
  storage : ExtStorage T
  size : ℕ
  size_le : size ≤ storage.capacity N

namespace ExtArray

def empty : ExtArray T N := ⟨.small fun _ => none, 0, Nat.zero_le _⟩

/-- Elements are copied from the inline buffer, wherever they are. -/
def resize (a : ExtArray T N) (newSize : ℕ) : ExtArray T N :=
  if newSize = a.size then a
  else if h : newSize ≤ a.storage.capacity N then ⟨a.storage, newSize, h⟩
  else
    ⟨.heap (newSize + 5) fun i => if i < a.size then a.storage.smallBuffer i else none, newSize,
      Nat.le_add_right _ _⟩

/-- Writes to `head`. -/
def modifyHead (a : ExtArray T N) (f : (ℕ → Option T) → ℕ → Option T) : ExtArray T N where
  storage := a.storage.withHead (f a.storage.head)
  size := a.size
  size_le := by
    have h := a.size_le
    cases hs : a.storage <;> rw [hs] at h <;> exact h

def pushBack (a : ExtArray T N) (elem : T) : ExtArray T N :=
  (a.resize (a.size + 1)).modifyHead fun head => update head a.size (some elem)

/-- The assignment to `operator[]`. -/
def set (a : ExtArray T N) (index : ℕ) (elem : T) : ExtArray T N :=
  if index < a.size then a.modifyHead fun head => update head index (some elem) else a

def copyFrom (a other : ExtArray T N) : ExtArray T N :=
  (a.resize other.size).modifyHead fun head i =>
    if i < other.size then other.storage.head i else head i

/-- The copy constructor. -/
def copy (other : ExtArray T N) : ExtArray T N := empty.copyFrom other

def get (a : ExtArray T N) (index : ℕ) : Option T := a.storage.head index

variable {a other : ExtArray T N} {n i : ℕ}

@[simp]
theorem size_resize : (a.resize n).size = n := by
  unfold resize
  split_ifs with heq
  · exact heq.symm
  · rfl
  · rfl

@[simp]
theorem size_modifyHead (f : (ℕ → Option T) → ℕ → Option T) : (a.modifyHead f).size = a.size := rfl

@[simp]
theorem get_modifyHead (f : (ℕ → Option T) → ℕ → Option T) :
    (a.modifyHead f).get i = f a.get i := by
  obtain ⟨storage, size, hsize⟩ := a
  cases storage <;> rfl

/-- The elements are on the heap and do not fit. -/
def Moves (a : ExtArray T N) (newSize : ℕ) : Prop :=
  match a.storage with
  | .small _ => False
  | .heap cap _ => cap < newSize

theorem get_resize (h : ¬ a.Moves n) (hi : i < a.size) : (a.resize n).get i = a.get i := by
  unfold resize
  split_ifs with heq hcap
  · rfl
  · rfl
  · unfold Moves at h
    unfold get
    cases hs : a.storage with
    | small data => exact if_pos hi
    | heap cap data =>
      rw [hs] at h hcap
      exact absurd (not_lt.mp h) hcap

theorem get_resize_of_moves (h : a.Moves n) : (a.resize n).get i = none := by
  obtain ⟨storage, size, hsize⟩ := a
  cases storage with
  | small data => exact h.elim
  | heap cap data =>
    have hne : n ≠ size := fun heq => absurd h (not_lt.mpr (heq ▸ hsize))
    have hcap : ¬ n ≤ (ExtStorage.heap cap data).capacity N := not_le.mpr h
    rw [resize, if_neg hne, dif_neg hcap]
    exact ite_self _

def resizeList (l : List (Option T)) (n : ℕ) : List (Option T) :=
  l.take n ++ List.replicate (n - l.length) none

/-- The defined elements of the list are those of the array. -/
structure Refines (a : ExtArray T N) (l : List (Option T)) : Prop where
  size : a.size = l.length
  get : ∀ i v, l[i]? = some (some v) → a.get i = some v

section Steps

variable {l l' : List (Option T)}

theorem getElem?_resizeList {v : T} :
    (resizeList l n)[i]? = some (some v) ↔ i < n ∧ l[i]? = some (some v) := by
  unfold resizeList
  rcases lt_or_ge i (min n l.length) with hi | hi
  · have hn : i < n := hi.trans_le (min_le_left _ _)
    rw [List.getElem?_append_left (by rwa [List.length_take]), List.getElem?_take, if_pos hn]
    exact (and_iff_right hn).symm
  · rw [List.getElem?_append_right (by rwa [List.length_take]), List.getElem?_replicate]
    constructor
    · intro h
      split_ifs at h
      exact absurd (Option.some.inj h) (Option.some_ne_none v).symm
    · rintro ⟨hn, hl⟩
      obtain ⟨hlt, -⟩ := List.getElem?_eq_some_iff.mp hl
      exact absurd hi (not_le.mpr (lt_min hn hlt))

theorem Refines.lt_size (h : a.Refines l) {v : T} (hv : l[i]? = some (some v)) : i < a.size :=
  h.size ▸ (List.getElem?_eq_some_iff.mp hv).1

/-- Elements that have to move are lost. -/
theorem Refines.kept_iff (h : a.Refines l) (hn : a.Moves n → a.size ≤ n) :
    (∀ i v, i < n → l[i]? = some (some v) → (a.resize n).get i = some v) ↔
      (a.Moves n → ∀ v, some v ∉ l) := by
  constructor
  · intro hget hmoves v hv
    obtain ⟨i, hi⟩ := List.mem_iff_getElem?.mp hv
    have := hget i v ((h.lt_size hi).trans_le (hn hmoves)) hi
    rw [get_resize_of_moves hmoves] at this
    exact absurd this.symm (Option.some_ne_none v)
  · intro hfits i v _ hi
    by_cases hmoves : a.Moves n
    · exact absurd (List.mem_of_getElem? hi) (hfits hmoves v)
    · rw [get_resize hmoves (h.lt_size hi)]
      exact h.get i v hi

theorem Moves.size_lt (h : a.Moves n) : a.size < n := by
  have hle := a.size_le
  unfold Moves at h
  cases hs : a.storage with
  | small data => rw [hs] at h; exact h.elim
  | heap cap data =>
    rw [hs] at h hle
    exact hle.trans_lt h

theorem Refines.resize_iff (h : a.Refines l) :
    (a.resize n).Refines (resizeList l n) ↔ (a.Moves n → ∀ v, some v ∉ l) := by
  rw [← h.kept_iff fun hmoves => hmoves.size_lt.le]
  constructor
  · intro hr i v hi hv
    exact hr.get i v (getElem?_resizeList.mpr ⟨hi, hv⟩)
  · intro hget
    refine ⟨?_, fun i v hv => ?_⟩
    · rw [size_resize, resizeList, List.length_append, List.length_take, List.length_replicate]
      omega
    · obtain ⟨hi, hv⟩ := getElem?_resizeList.mp hv
      exact hget i v hi hv

theorem Refines.pushBack_iff (h : a.Refines l) (elem : T) :
    (a.pushBack elem).Refines (l ++ [some elem]) ↔
      (a.Moves (a.size + 1) → ∀ v, some v ∉ l) := by
  rw [← h.kept_iff fun hmoves => hmoves.size_lt.le]
  have hget : ∀ i, (a.pushBack elem).get i =
      update (a.resize (a.size + 1)).get a.size (some elem) i := fun i => get_modifyHead _
  constructor
  · intro hr i v _ hv
    have hi := h.lt_size hv
    have := hr.get i v (by rwa [List.getElem?_append_left (h.size ▸ hi)])
    rwa [hget, update_of_ne hi.ne] at this
  · intro hkept
    refine ⟨?_, fun i v hv => ?_⟩
    · rw [List.length_append, List.length_singleton, ← h.size]
      exact size_resize
    · rw [hget]
      rcases lt_trichotomy i a.size with hi | rfl | hi
      · rw [update_of_ne hi.ne]
        rw [List.getElem?_append_left (h.size ▸ hi)] at hv
        exact hkept i v (Nat.lt_succ_of_lt hi) hv
      · rw [h.size, List.getElem?_concat_length] at hv
        rw [update_self]
        exact Option.some.inj hv
      · have hlen := (List.getElem?_eq_some_iff.mp hv).1
        rw [List.length_append, List.length_singleton, ← h.size] at hlen
        omega

theorem Refines.set (h : a.Refines l) (index : ℕ) (elem : T) :
    (a.set index elem).Refines (l.set index (some elem)) := by
  unfold ExtArray.set
  split_ifs with hindex
  · refine ⟨by rw [size_modifyHead, List.length_set, h.size], fun i v hv => ?_⟩
    rw [get_modifyHead]
    rw [List.getElem?_set] at hv
    split_ifs at hv with heq hlt
    · rw [← heq, update_self]
      exact Option.some.inj hv
    · rw [update_of_ne (Ne.symm heq)]
      exact h.get i v hv
  · rw [List.set_eq_of_length_le (h.size ▸ not_lt.mp hindex)]
    exact h

theorem Refines.copyFrom (h : other.Refines l) (a : ExtArray T N) :
    (a.copyFrom other).Refines l := by
  refine ⟨size_resize.trans h.size, fun i v hv => ?_⟩
  unfold ExtArray.copyFrom
  rw [get_modifyHead, if_pos (h.lt_size hv)]
  exact h.get i v hv

theorem refines_empty : (empty : ExtArray T N).Refines [] :=
  ⟨rfl, fun _ _ h => by simp at h⟩

end Steps

end ExtArray

inductive ArrayEvent (T : Type)
  | resize (i newSize : ℕ)
  | pushBack (i : ℕ) (elem : T)
  | set (i index : ℕ) (elem : T)
  | assign (i j : ℕ)
  | copy (i j : ℕ)

/-- Arrays under their names, beside the lists. -/
structure ArrayRun (T : Type) (N : ℕ) where
  arrays : ℕ → ExtArray T N := fun _ => .empty
  lists : ℕ → List (Option T) := fun _ => []

namespace ArrayRun

/-- An array that is assigned to itself stays. -/
def step (s : ArrayRun T N) : ArrayEvent T → ArrayRun T N
  | .resize i n =>
    ⟨update s.arrays i ((s.arrays i).resize n),
      update s.lists i (ExtArray.resizeList (s.lists i) n)⟩
  | .pushBack i elem =>
    ⟨update s.arrays i ((s.arrays i).pushBack elem), update s.lists i (s.lists i ++ [some elem])⟩
  | .set i index elem =>
    ⟨update s.arrays i ((s.arrays i).set index elem),
      update s.lists i ((s.lists i).set index (some elem))⟩
  | .assign i j =>
    ⟨update s.arrays i (if i = j then s.arrays i else (s.arrays i).copyFrom (s.arrays j)),
      update s.lists i (s.lists j)⟩
  | .copy i j => ⟨update s.arrays i (s.arrays j).copy, update s.lists i (s.lists j)⟩

def Refines (s : ArrayRun T N) : Prop := ∀ i, (s.arrays i).Refines (s.lists i)

/-- No defined element that stays is on the heap when the array has to move. -/
def Fits (s : ArrayRun T N) : ArrayEvent T → Prop
  | .resize i n => (s.arrays i).Moves n → ∀ v, some v ∉ s.lists i
  | .pushBack i _ => (s.arrays i).Moves ((s.arrays i).size + 1) → ∀ v, some v ∉ s.lists i
  | _ => True

theorem refines_update_iff {s : ArrayRun T N} (hs : s.Refines) {i : ℕ} {a : ExtArray T N}
    {l : List (Option T)} :
    Refines ⟨update s.arrays i a, update s.lists i l⟩ ↔ a.Refines l := by
  constructor
  · intro h
    have := h i
    dsimp only at this
    rwa [update_self, update_self] at this
  · intro h j
    dsimp only
    by_cases hj : j = i
    · rw [hj, update_self, update_self]
      exact h
    · rw [update_of_ne hj, update_of_ne hj]
      exact hs j

theorem refines_step_iff {s : ArrayRun T N} (hs : s.Refines) (e : ArrayEvent T) :
    (s.step e).Refines ↔ s.Fits e := by
  cases e with
  | resize i n => exact (refines_update_iff hs).trans (hs i).resize_iff
  | pushBack i elem => exact (refines_update_iff hs).trans ((hs i).pushBack_iff elem)
  | set i index elem =>
    exact iff_of_true ((refines_update_iff hs).mpr ((hs i).set index elem)) trivial
  | assign i j =>
    refine iff_of_true ((refines_update_iff hs).mpr ?_) trivial
    split_ifs with hij
    · rw [hij]
      exact hs j
    · exact (hs j).copyFrom _
  | copy i j => exact iff_of_true ((refines_update_iff hs).mpr ((hs j).copyFrom _)) trivial

end ArrayRun

end SrsLte
