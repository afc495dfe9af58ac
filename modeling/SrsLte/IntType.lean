import Mathlib.Data.Int.Basic
import Mathlib.Tactic.Ring

/-!
# The integer types of the packing templates
-/

namespace SrsLte

/-- The types the templates of the ASN.1 packing are instantiated at. -/
inductive IntType
  | int8 | int16 | int32 | int64 | uint8 | uint16 | uint32 | uint64
  deriving DecidableEq

namespace IntType

def width : IntType → ℕ
  | int8 | uint8 => 8
  | int16 | uint16 => 16
  | int32 | uint32 => 32
  | int64 | uint64 => 64

def signed : IntType → Bool
  | int8 | int16 | int32 | int64 => true
  | uint8 | uint16 | uint32 | uint64 => false

def min (t : IntType) : ℤ := if t.signed then -2 ^ (t.width - 1) else 0

def max (t : IntType) : ℤ := t.min + 2 ^ t.width - 1

def wrap (t : IntType) (x : ℤ) : ℤ := t.min + (x - t.min) % 2 ^ t.width

def Has (t : IntType) (x : ℤ) : Prop := t.min ≤ x ∧ x ≤ t.max

instance (t : IntType) (x : ℤ) : Decidable (t.Has x) := inferInstanceAs (Decidable (_ ∧ _))

variable {t : IntType} {x y lb ub : ℤ}

theorem modulus_pos (t : IntType) : (0 : ℤ) < 2 ^ t.width := Int.pow_pos (by decide)

theorem min_nonpos (t : IntType) : t.min ≤ 0 := by cases t <;> decide

theorem max_pos (t : IntType) : 0 < t.max := by cases t <;> decide

theorem wrap_has (t : IntType) (x : ℤ) : t.Has (t.wrap x) := by
  have hnonneg := Int.emod_nonneg (x - t.min) (ne_of_gt t.modulus_pos)
  have hlt := Int.emod_lt_of_pos (x - t.min) t.modulus_pos
  constructor
  · unfold wrap
    omega
  · unfold wrap max
    omega

theorem wrap_eq (h : t.Has x) : t.wrap x = x := by
  obtain ⟨hmin, hmax⟩ := h
  unfold max at hmax
  rw [wrap, Int.emod_eq_of_lt (by omega) (by omega)]
  omega

theorem wrap_emod (t : IntType) (x : ℤ) : t.wrap x % 2 ^ t.width = x % 2 ^ t.width := by
  rw [wrap, Int.add_emod_emod, Int.add_comm, Int.sub_add_cancel]

theorem wrap_congr (h : x % 2 ^ t.width = y % 2 ^ t.width) : t.wrap x = t.wrap y := by
  rw [wrap, wrap, Int.sub_emod, h, ← Int.sub_emod]

theorem wrap_wrap_add (t : IntType) (x y : ℤ) : t.wrap (t.wrap x + y) = t.wrap (x + y) := by
  apply wrap_congr
  rw [Int.add_emod, wrap_emod, ← Int.add_emod]

theorem wrap_add_mem (hlb : t.Has lb) (hub : t.Has ub) (hx : 0 ≤ x) (hlt : x < 2 ^ t.width) :
    (lb ≤ t.wrap (x + lb) ∧ t.wrap (x + lb) ≤ ub) ↔ x ≤ ub - lb := by
  constructor
  · rintro ⟨hlow, hhigh⟩
    have hdiff : (t.wrap (x + lb) - lb) % 2 ^ t.width = x := by
      rw [Int.sub_emod, wrap_emod, ← Int.sub_emod, Int.add_sub_cancel, Int.emod_eq_of_lt hx hlt]
    have hmax := hub.2
    have hmin := hlb.1
    unfold max at hmax
    rw [Int.emod_eq_of_lt (by omega) (by omega)] at hdiff
    omega
  · intro hle
    have hhas : t.Has (x + lb) := ⟨by have := hlb.1; omega, by have := hub.2; omega⟩
    rw [wrap_eq hhas]
    omega

theorem wrap_add_lt (hlb : t.Has lb) (hlt : x < 2 ^ t.width) (h : t.max < x + lb) :
    t.wrap (x + lb) < lb := by
  have hmax := hlb.2
  have hmin := hlb.1
  have hback : t.wrap (x + lb) = t.wrap (x + lb - 2 ^ t.width) := by
    apply wrap_congr
    rw [Int.sub_emod_right]
  rw [hback, wrap_eq]
  · omega
  · unfold max at h hmax
    constructor
    · omega
    · unfold max
      omega

end IntType
end SrsLte
