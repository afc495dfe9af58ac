import Mathlib.Data.Finset.Basic
import Mathlib.Order.Interval.Finset.Nat
import SrsLte.IndexTypes

/-!
# Bounded bitsets

A `bounded_bitset<N>` has a current size up to `N` and a set of positions below that size. An
operation with arguments out of bounds, or on two bitsets of different size, prints an error and
leaves the bitset as it is.
-/

namespace SrsLte

structure BoundedBitset (N : ℕ) where
  size : ℕ
  bits : Finset ℕ
  size_le : size ≤ N
  lt_size : ∀ i ∈ bits, i < size
  deriving DecidableEq

namespace BoundedBitset

variable {N : ℕ}

def empty (size : ℕ) (h : size ≤ N) : BoundedBitset N where
  size := size
  bits := ∅
  size_le := h
  lt_size := fun i hi => absurd hi (Finset.notMem_empty i)

/-- `reset()`. -/
def reset (b : BoundedBitset N) : BoundedBitset N := empty b.size b.size_le

/-- `fill(startpos, endpos)`. -/
def fill (b : BoundedBitset N) (startpos endpos : ℕ) : BoundedBitset N :=
  if h : endpos > b.size ∨ startpos > endpos then b
  else
    { b with
      bits := b.bits ∪ Finset.Ico startpos endpos
      lt_size := fun i hi => by
        rcases Finset.mem_union.mp hi with hi | hi
        · exact b.lt_size i hi
        · have := Finset.mem_Ico.mp hi
          omega }

/-- `fill(startpos, endpos, false)`. -/
def clear (b : BoundedBitset N) (startpos endpos : ℕ) : BoundedBitset N :=
  if endpos > b.size ∨ startpos > endpos then b
  else
    { b with
      bits := b.bits \ Finset.Ico startpos endpos
      lt_size := fun i hi => b.lt_size i (Finset.mem_sdiff.mp hi).1 }

/-- `operator~`. -/
def compl (b : BoundedBitset N) : BoundedBitset N where
  size := b.size
  bits := Finset.range b.size \ b.bits
  size_le := b.size_le
  lt_size := fun _ hi => Finset.mem_range.mp (Finset.mem_sdiff.mp hi).1

def any (b : BoundedBitset N) : Bool := b.bits ≠ ∅

/-- `operator|`. -/
def or (b c : BoundedBitset N) : BoundedBitset N :=
  if h : c.size = b.size then
    { b with
      bits := b.bits ∪ c.bits
      lt_size := fun i hi => by
        rcases Finset.mem_union.mp hi with hi | hi
        · exact b.lt_size i hi
        · exact h ▸ c.lt_size i hi }
  else b

/-- `operator&`. -/
def and (b c : BoundedBitset N) : BoundedBitset N :=
  if c.size = b.size then
    { b with
      bits := b.bits ∩ c.bits
      lt_size := fun i hi => b.lt_size i (Finset.mem_inter.mp hi).1 }
  else b

/-- `count()`. -/
def count (b : BoundedBitset N) : ℕ := b.bits.card

theorem size_fill (b : BoundedBitset N) (startpos endpos : ℕ) :
    (b.fill startpos endpos).size = b.size := by
  unfold fill
  split_ifs <;> rfl

theorem size_or (b c : BoundedBitset N) : (b.or c).size = b.size := by
  unfold or
  split_ifs <;> rfl

theorem bits_or {b c : BoundedBitset N} (h : c.size = b.size) :
    (b.or c).bits = b.bits ∪ c.bits := by
  rw [or, dif_pos h]

theorem any_and_eq_false {b c : BoundedBitset N} (h : c.size = b.size) :
    (b.and c).any = false ↔ Disjoint b.bits c.bits := by
  rw [and, if_pos h, any, decide_eq_false_iff_not, not_not, Finset.disjoint_iff_inter_eq_empty]

theorem bits_fill {b : BoundedBitset N} {startpos endpos : ℕ} (hend : endpos ≤ b.size) :
    (b.fill startpos endpos).bits = b.bits ∪ Finset.Ico startpos endpos := by
  rcases Nat.lt_or_ge endpos startpos with hlt | hle
  · rw [fill, dif_pos (Or.inr hlt), Finset.Ico_eq_empty (Nat.not_lt.mpr hlt.le),
      Finset.union_empty]
  · rw [fill, dif_neg (not_or.mpr ⟨Nat.not_lt.mpr hend, Nat.not_lt.mpr hle⟩)]

theorem bits_fill_empty {size endpos : ℕ} (hN : size ≤ N) (startpos : ℕ) (hend : endpos ≤ size) :
    ((empty size hN).fill startpos endpos).bits = Finset.Ico startpos endpos :=
  (bits_fill (b := empty size hN) hend).trans (Finset.empty_union _)

end BoundedBitset
end SrsLte
