import SrsLte.ByteBuffer
import Mathlib.Data.Nat.Bitwise

/-!
# Length indicators of RLC headers

The extension part of the UMD and AMD headers: an extension bit and eleven bits of length for each
indicator, two of them in three bytes. Both RLC modes write and read it with the same code. A
length is stored modulo 2048.
-/

namespace SrsLte
namespace LengthIndicators

/-- The extension part for the indicators `li`. -/
def write : List ℕ → Bytes
  | [] => []
  | [a] => [UInt8.ofNat (0 <<< 7 ||| (a &&& 0x7F0) >>> 4), UInt8.ofNat ((a &&& 0x00F) <<< 4)]
  | a :: b :: li =>
    UInt8.ofNat (1 <<< 7 ||| (a &&& 0x7F0) >>> 4) ::
      UInt8.ofNat ((a &&& 0x00F) <<< 4 ||| (if li = [] then 0 else 1) <<< 3 |||
        (b &&& 0x700) >>> 8) ::
      UInt8.ofNat (b &&& 0x0FF) :: write li

/-- The extension loop at `ptr`, behind an extension bit that is set. Every round uses one unit of
`fuel`; bytes behind the PDU are read as zeros. -/
def read (pdu : Bytes) : ℕ → ℕ → List ℕ → List ℕ × ℕ
  | 0, ptr, li => (li, ptr)
  | fuel + 1, ptr, li =>
    let byte := fun i => (pdu.getD i 0).toNat
    if li.length % 2 = 0 then
      let ext := byte ptr >>> 7 &&& 0x01
      let li := li ++ [(byte ptr &&& 0x7F) <<< 4 ||| (byte (ptr + 1) &&& 0xF0) >>> 4]
      if ext = 1 then read pdu fuel (ptr + 1) li else (li, ptr + 1)
    else
      let ext := byte ptr >>> 3 &&& 0x01
      let li := li ++ [(byte ptr &&& 0x07) <<< 8 ||| (byte (ptr + 1) &&& 0xFF)]
      if ext = 1 then read pdu fuel (ptr + 2) li else (li, ptr + 2)

def length (n : ℕ) : ℕ := (3 * n + 1) / 2

theorem length_write (li : List ℕ) : (write li).length = length li.length := by
  induction li using write.induct with
  | case1 => rfl
  | case2 a => simp [write, length]
  | case3 a b li ih =>
    rw [write, List.length_cons, List.length_cons, List.length_cons, ih, length, length,
      List.length_cons, List.length_cons]
    omega

theorem and_low (a w : ℕ) : a &&& (2 ^ w - 1) = a % 2 ^ w := Nat.and_two_pow_sub_one_eq_mod a w

theorem and_mask_shift (a w k : ℕ) :
    (a &&& (2 ^ w - 1) <<< k) >>> k = a / 2 ^ k % 2 ^ w := by
  rw [Nat.shiftRight_and_distrib, Nat.shiftLeft_shiftRight, Nat.shiftRight_eq_div_pow, and_low]

theorem or_high {k lo : ℕ} (h : lo < 2 ^ k) (hi : ℕ) : hi <<< k ||| lo = hi * 2 ^ k + lo := by
  rw [← Nat.shiftLeft_add_eq_or_of_lt h, Nat.shiftLeft_eq]

theorem toNat_ofNat {n : ℕ} (h : n < 256) : (UInt8.ofNat n).toNat = n := by
  rw [UInt8.toNat_ofNat']
  exact Nat.mod_eq_of_lt h

theorem toNat_first {ext : ℕ} (h : ext < 2) (a : ℕ) :
    (UInt8.ofNat (ext <<< 7 ||| (a &&& 0x7F0) >>> 4)).toNat = ext * 128 + a / 16 % 128 := by
  have hbits : (a &&& 0x7F0) >>> 4 = a / 16 % 128 := and_mask_shift a 7 4
  rw [hbits, or_high (show a / 16 % 128 < 2 ^ 7 from Nat.mod_lt _ (by decide)), toNat_ofNat]
  all_goals omega

theorem toNat_single (a : ℕ) : (UInt8.ofNat ((a &&& 0x00F) <<< 4)).toNat = a % 16 * 16 := by
  have hbits : a &&& 0x00F = a % 16 := and_low a 4
  rw [hbits, Nat.shiftLeft_eq, toNat_ofNat]
  omega

theorem toNat_second {ext : ℕ} (h : ext < 2) (a b : ℕ) :
    (UInt8.ofNat ((a &&& 0x00F) <<< 4 ||| ext <<< 3 ||| (b &&& 0x700) >>> 8)).toNat =
      a % 16 * 16 + ext * 8 + b / 256 % 8 := by
  have ha : a &&& 0x00F = a % 16 := and_low a 4
  have hb : (b &&& 0x700) >>> 8 = b / 256 % 8 := and_mask_shift b 3 8
  have hlow : b / 256 % 8 < 2 ^ 3 := Nat.mod_lt _ (by decide)
  rw [ha, hb, Nat.or_assoc, or_high hlow, or_high (by omega), toNat_ofNat]
  · omega
  · omega

theorem toNat_third (b : ℕ) : (UInt8.ofNat (b &&& 0x0FF)).toNat = b % 256 := by
  have hb : b &&& 0x0FF = b % 256 := and_low b 8
  rw [hb, toNat_ofNat (Nat.mod_lt _ (by decide))]

theorem read_first {x y : ℕ} (hy : y < 256) :
    (x &&& 0x7F) <<< 4 ||| (y &&& 0xF0) >>> 4 = x % 128 * 16 + y / 16 := by
  have hx : x &&& 0x7F = x % 128 := and_low x 7
  have hlow : (y &&& 0xF0) >>> 4 = y / 16 % 16 := and_mask_shift y 4 4
  rw [hx, hlow, or_high (show y / 16 % 16 < 2 ^ 4 from Nat.mod_lt _ (by decide))]
  omega

theorem read_second {y z : ℕ} (hz : z < 256) :
    (y &&& 0x07) <<< 8 ||| (z &&& 0xFF) = y % 8 * 256 + z := by
  have hy : y &&& 0x07 = y % 8 := and_low y 3
  have hlow : z &&& 0xFF = z % 256 := and_low z 8
  rw [hy, hlow, or_high (show z % 256 < 2 ^ 8 from Nat.mod_lt _ (by decide))]
  omega

theorem read_ext (x k : ℕ) : x >>> k &&& 0x01 = x / 2 ^ k % 2 := by
  rw [Nat.shiftRight_eq_div_pow]
  exact and_low _ 1

theorem getD_of_drop {pdu rest : Bytes} {ptr : ℕ} {front : Bytes} (h : pdu.drop ptr = front ++ rest)
    {i : ℕ} (hi : i < front.length) : pdu.getD (ptr + i) 0 = front.getD i 0 := by
  rw [List.getD_eq_getElem?_getD, List.getD_eq_getElem?_getD, ← List.getElem?_drop, h,
    List.getElem?_append_left hi]

theorem read_write {pdu rest : Bytes} {li : List ℕ} (hne : li ≠ []) {ptr fuel : ℕ}
    {acc : List ℕ} (hacc : acc.length % 2 = 0) (hfuel : li.length ≤ fuel)
    (hdrop : pdu.drop ptr = write li ++ rest) :
    read pdu fuel ptr acc = (acc ++ li.map (· % 2048), ptr + 3 * li.length / 2) := by
  induction li using write.induct generalizing ptr fuel acc with
  | case1 => exact absurd rfl hne
  | case2 a =>
    obtain ⟨fuel, rfl⟩ : ∃ k, fuel = k + 1 := ⟨fuel - 1, by simp at hfuel; omega⟩
    have h0 := getD_of_drop hdrop (i := 0) (by simp [write])
    have h1 := getD_of_drop hdrop (i := 1) (by simp [write])
    simp only [Nat.add_zero, write, List.getD_cons_zero, List.getD_cons_succ] at h0 h1
    have hsecond := toNat_single a
    have hval : a / 16 % 128 % 128 * 16 + a % 16 * 16 / 16 = a % 2048 := by omega
    rw [read]
    simp only [hacc, if_true, h0, h1, read_ext, toNat_first (show 0 < 2 by decide), hsecond,
      read_first (show a % 16 * 16 < 256 by omega), Nat.zero_mul, Nat.zero_add, hval]
    rw [if_neg (by omega)]
    simp
  | case3 a b li ih =>
    obtain ⟨fuel, rfl⟩ : ∃ k, fuel = k + 2 := ⟨fuel - 2, by simp at hfuel; omega⟩
    have hext : (if li = [] then 0 else 1) < 2 := by split_ifs <;> decide
    have h0 := getD_of_drop hdrop (i := 0) (by simp [write])
    have h1 := getD_of_drop hdrop (i := 1) (by simp [write])
    have h2 := getD_of_drop hdrop (i := 2) (by simp [write])
    simp only [Nat.add_zero, write, List.getD_cons_zero, List.getD_cons_succ] at h0 h1 h2
    have hfirst := toNat_first (show 1 < 2 by decide) a
    have hsecond := toNat_second hext a b
    have hthird := toNat_third b
    have hbound : a % 16 * 16 + (if li = [] then 0 else 1) * 8 + b / 256 % 8 < 256 := by omega
    have hval : (1 * 128 + a / 16 % 128) % 128 * 16 +
        (a % 16 * 16 + (if li = [] then 0 else 1) * 8 + b / 256 % 8) / 16 = a % 2048 := by omega
    have hval' : (a % 16 * 16 + (if li = [] then 0 else 1) * 8 + b / 256 % 8) % 8 * 256 +
        b % 256 = b % 2048 := by omega
    have hmore : (1 * 128 + a / 16 % 128) / 2 ^ 7 % 2 = 1 := by omega
    have hmore' : (a % 16 * 16 + (if li = [] then 0 else 1) * 8 + b / 256 % 8) / 2 ^ 3 % 2 =
        if li = [] then 0 else 1 := by omega
    have hodd : (acc ++ [a % 2048]).length % 2 = 1 := by
      rw [List.length_append, List.length_singleton]
      omega
    rw [read]
    simp only [hacc, if_true, h0, h1, hfirst, hsecond, read_ext, read_first hbound, hval, hmore]
    rw [read]
    simp only [hodd, Nat.one_ne_zero, if_false, h1, Nat.add_assoc, Nat.reduceAdd, h2, hsecond,
      hthird, read_ext, read_second (show b % 256 < 256 by omega)]
    rw [← Nat.add_assoc (a % 16 * 16), hval', hmore']
    by_cases hli : li = []
    · subst hli
      simp
    · have hdrop' : pdu.drop (ptr + 3) = write li ++ rest := by
        rw [← List.drop_drop, hdrop]
        rfl
      have heven : (acc ++ [a % 2048] ++ [b % 2048]).length % 2 = 0 := by
        rw [List.length_append, List.length_singleton]
        omega
      have hfuel' : li.length ≤ fuel := by simp at hfuel; omega
      rw [if_neg hli, if_pos rfl, ih hli heven hfuel' hdrop']
      simp
      omega

end LengthIndicators
end SrsLte
