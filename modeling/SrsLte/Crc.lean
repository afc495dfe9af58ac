import Mathlib.Data.Nat.Bitwise
import SrsLte.ByteBuffer

/-!
# Cyclic redundancy checks

The checksum is kept in a 64-bit word of which `order` bits count, and goes on by one octet at a
time with a table. A block with its checksum behind it has the checksum zero.
-/

namespace SrsLte

/-- `srslte_crc_t` after `srslte_crc_init`, without the running checksum. -/
structure Crc where
  polynom : ℕ
  order : ℕ
  deriving DecidableEq

namespace Crc

/-- `SRSLTE_LTE_CRC24A`. -/
def crcTb : Crc := ⟨0x1864CFB, 24⟩

/-- `SRSLTE_LTE_CRC24B`. -/
def crcCb : Crc := ⟨0x1800063, 24⟩

variable (h : Crc)

/-- The body of the inner loop of `gen_crc_table`. -/
def genStep (crc : ℕ) : ℕ :=
  if crc.testBit (h.order - 1) then (crc * 2 % 2 ^ 64) ^^^ h.polynom else crc * 2 % 2 ^ 64

def table (i : ℕ) : ℕ := h.genStep^[8] (i * 2 ^ (h.order - 8)) % 2 ^ h.order

/-- `srslte_crc_checksum_put_byte`. -/
def putByte (crcinit : ℕ) (byte : UInt8) : ℕ :=
  (crcinit * 2 ^ 8 % 2 ^ 64) ^^^ h.table ((crcinit / 2 ^ (h.order - 8) % 2 ^ 8) ^^^ byte.toNat)

/-- `srslte_crc_checksum_get`. -/
def checksumGet (crcinit : ℕ) : ℕ := crcinit % 2 ^ h.order

/-- `srslte_crc_checksum_byte`, of `len / 8` octets. -/
def checksumByte (data : Bytes) (len : ℕ) : ℕ :=
  h.checksumGet ((data.take (len / 8)).foldl h.putByte 0)

def octets (checksum : ℕ) : Bytes :=
  (List.range (h.order / 8)).map fun i =>
    UInt8.ofNat (checksum / 2 ^ (8 * (h.order / 8 - i - 1)) % 2 ^ 8)

theorem genStep_zero : h.genStep 0 = 0 := by
  unfold genStep
  rw [Nat.zero_testBit]
  rfl

theorem table_zero : h.table 0 = 0 := by
  unfold table
  rw [Nat.zero_mul, Function.iterate_fixed h.genStep_zero, Nat.zero_mod]

theorem length_octets (checksum : ℕ) : (h.octets checksum).length = h.order / 8 := by
  unfold octets
  rw [List.length_map, List.length_range]

theorem putByte_top (horder : h.order ≤ 64) {crcinit : ℕ} {byte : UInt8}
    (hbyte : crcinit / 2 ^ (h.order - 8) % 2 ^ 8 = byte.toNat) :
    h.checksumGet (h.putByte crcinit byte) = crcinit * 2 ^ 8 % 2 ^ h.order := by
  unfold checksumGet putByte
  rw [hbyte, Nat.xor_self, table_zero, Nat.xor_zero]
  exact Nat.mod_mod_of_dvd _ (Nat.pow_dvd_pow 2 horder)

theorem checksumGet_octets {k : ℕ} (hk : h.order = 8 * k) (hle : k ≤ 8) (crcinit : ℕ) {j : ℕ}
    (hj : j ≤ k) :
    h.checksumGet (((h.octets (h.checksumGet crcinit)).take j).foldl h.putByte crcinit) =
      crcinit * 2 ^ (8 * j) % 2 ^ h.order := by
  induction j with
  | zero =>
    rw [List.take_zero, Nat.mul_zero, Nat.pow_zero, Nat.mul_one]
    rfl
  | succ j ih =>
    have hjk : j < k := hj
    have hdiv : h.order / 8 = k := by omega
    have hget : (h.octets (h.checksumGet crcinit))[j]? =
        some (UInt8.ofNat (h.checksumGet crcinit / 2 ^ (8 * (k - j - 1)) % 2 ^ 8)) := by
      unfold octets
      rw [hdiv, List.getElem?_map, List.getElem?_range hjk]
      rfl
    rw [List.take_add_one, hget, Option.toList_some, List.foldl_append, List.foldl_cons,
      List.foldl_nil]
    have ih := ih hjk.le
    generalize ((h.octets (h.checksumGet crcinit)).take j).foldl h.putByte crcinit = state at ih ⊢
    have hmod : ∀ a, a % 2 ^ (8 * k) / 2 ^ (8 * (k - 1)) = a / 2 ^ (8 * (k - 1)) % 2 ^ 8 := by
      intro a
      rw [show 8 * k = 8 * (k - 1) + 8 by omega, Nat.pow_add, Nat.mod_mul_right_div_self]
    have hup : crcinit * 2 ^ (8 * j) / 2 ^ (8 * (k - 1)) = crcinit / 2 ^ (8 * (k - j - 1)) := by
      rw [show 8 * (k - 1) = 8 * (k - j - 1) + 8 * j by omega, Nat.pow_add,
        Nat.mul_div_mul_right _ _ (Nat.two_pow_pos _)]
    have hlow : crcinit % 2 ^ (8 * k) / 2 ^ (8 * (k - j - 1)) % 2 ^ 8 =
        crcinit / 2 ^ (8 * (k - j - 1)) % 2 ^ 8 := by
      rw [show 8 * k = 8 * (k - j - 1) + (8 + 8 * j) by omega, Nat.pow_add,
        Nat.mod_mul_right_div_self, Nat.pow_add, Nat.mod_mul_right_mod]
    have htop : state / 2 ^ (h.order - 8) % 2 ^ 8 =
        (UInt8.ofNat (h.checksumGet crcinit / 2 ^ (8 * (k - j - 1)) % 2 ^ 8)).toNat := by
      unfold checksumGet at ih ⊢
      rw [hk] at ih ⊢
      rw [show 8 * k - 8 = 8 * (k - 1) by omega, ← hmod, ih, hmod, hup, hlow, UInt8.toNat_ofNat',
        Nat.mod_mod]
    rw [h.putByte_top (by omega) htop, ← Nat.mod_mul_mod, show state % 2 ^ h.order = _ from ih,
      Nat.mod_mul_mod, Nat.mul_assoc, ← Nat.pow_add, ← Nat.mul_succ]

theorem checksumByte_attached {k : ℕ} (hk : h.order = 8 * k) (hle : k ≤ 8) (data : Bytes) :
    h.checksumByte (data ++ h.octets (h.checksumGet (data.foldl h.putByte 0)))
      (8 * (data.length + k)) = 0 := by
  have hlen : (h.octets (h.checksumGet (data.foldl h.putByte 0))).length = k := by
    rw [length_octets, hk, Nat.mul_div_cancel_left _ (by decide)]
  have hall := h.checksumGet_octets hk hle (data.foldl h.putByte 0) (le_refl k)
  rw [List.take_of_length_le hlen.le] at hall
  unfold checksumByte
  rw [Nat.mul_div_cancel_left _ (by decide), List.take_of_length_le, List.foldl_append, hall, hk,
    Nat.mul_mod_left]
  rw [List.length_append, hlen]

end Crc

end SrsLte
