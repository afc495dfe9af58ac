import Mathlib.Data.Nat.Bitwise
import Mathlib.Data.Nat.ModEq
import SrsLte.IndexTypes

/-!
# Machine words over the natural numbers

Unsigned 32-bit values are natural numbers with explicit reduction modulo `2 ^ 32`, and signed
32-bit values are integers obtained from the same bit pattern. `concat32 w hi lo` is the word
whose low `w` bits are `lo` and whose upper bits are those of `hi` that fit.

The second half is serial-number arithmetic: a residue modulo `M` together with a window of `M`
consecutive numbers determines the number itself.
-/

namespace Word

def sub32 (a b : ℕ) : ℕ := (a + (2 ^ 32 - b % 2 ^ 32)) % 2 ^ 32

def toInt32 (a : ℕ) : ℤ :=
  if a % 2 ^ 32 < 2 ^ 31 then ((a % 2 ^ 32 : ℕ) : ℤ) else ((a % 2 ^ 32 : ℕ) : ℤ) - 2 ^ 32

/-- `(hi << w) | lo` on 32-bit words. -/
def concat32 (w hi lo : ℕ) : ℕ := ((hi <<< w) % 2 ^ 32) ||| lo

theorem sub32_of_le {a b : ℕ} (h : b ≤ a) (ha : a < 2 ^ 32) : sub32 a b = a - b := by
  unfold sub32
  omega

theorem sub32_add_le {a b : ℕ} (h : b ≤ a) : sub32 a b + b ≤ a := by
  unfold sub32
  omega

theorem toInt32_of_lt {a : ℕ} (h : a < 2 ^ 31) : toInt32 a = a := by
  unfold toInt32
  rw [Nat.mod_eq_of_lt (by omega), if_pos h]

theorem toInt32_le (a : ℕ) : toInt32 a ≤ a := by
  unfold toInt32
  split_ifs <;> omega

theorem toInt32_sub32 {a b : ℕ} (ha : a < 2 ^ 31) (hb : b < 2 ^ 31) :
    toInt32 (sub32 a b) = (a : ℤ) - b := by
  unfold toInt32 sub32
  split_ifs with h <;> omega

theorem concat32_eq {w lo : ℕ} (hw : w ≤ 32) (hlo : lo < 2 ^ w) (hi : ℕ) :
    concat32 w hi lo = (hi * 2 ^ w + lo) % 2 ^ 32 := by
  have hsplit : 2 ^ 32 = 2 ^ (32 - w) * 2 ^ w := by rw [← pow_add, Nat.sub_add_cancel hw]
  have hshift : (hi <<< w) % 2 ^ 32 = (hi % 2 ^ (32 - w)) <<< w := by
    rw [Nat.shiftLeft_eq, Nat.shiftLeft_eq, hsplit, Nat.mul_mod_mul_right]
  have hlt : hi % 2 ^ (32 - w) < 2 ^ (32 - w) := Nat.mod_lt _ (Nat.two_pow_pos _)
  unfold concat32
  rw [hshift, ← Nat.shiftLeft_add_eq_or_of_lt hlo, Nat.shiftLeft_eq]
  have hbound : hi % 2 ^ (32 - w) * 2 ^ w + lo < 2 ^ 32 := by
    rw [hsplit]
    calc hi % 2 ^ (32 - w) * 2 ^ w + lo < (hi % 2 ^ (32 - w) + 1) * 2 ^ w := by
          rw [add_mul, one_mul]
          exact Nat.add_lt_add_left hlo _
      _ ≤ 2 ^ (32 - w) * 2 ^ w := Nat.mul_le_mul_right _ hlt
  rw [← Nat.mod_eq_of_lt hbound, Nat.add_mod, ← Nat.mul_mod_mul_right, ← hsplit, Nat.mod_mod,
    ← Nat.add_mod]

/-- The number congruent to `r` modulo `M` in the window of length `M` starting at `lo`. -/
def unwrap (M lo r : ℕ) : ℕ := lo + (r + (M - lo % M)) % M

theorem unwrap_mod {M n lo : ℕ} (hlo : lo ≤ n) (hhi : n < lo + M) : unwrap M lo (n % M) = n := by
  have hM : 0 < M := by omega
  obtain ⟨d, rfl⟩ := Nat.exists_eq_add_of_le hlo
  have hd : d < M := by omega
  have hr : lo % M < M := Nat.mod_lt _ hM
  have hsum : ((lo + d) % M + (M - lo % M)) % M = d := by
    have hcong : (lo + d) % M + (M - lo % M) ≡ d [MOD M] := by
      calc (lo + d) % M + (M - lo % M) ≡ (lo % M + d) + (M - lo % M) [MOD M] := by
            apply Nat.ModEq.add_right
            exact (Nat.mod_modEq _ _).trans ((Nat.mod_modEq lo M).symm.add_right d)
        _ = d + M := by omega
        _ ≡ d [MOD M] := by simp [Nat.ModEq]
    exact (show _ % M = d % M from hcong).trans (Nat.mod_eq_of_lt hd)
  unfold unwrap
  rw [hsum]

theorem eq_of_mod_eq {M m n lo : ℕ} (hm : lo ≤ m) (hm' : m < lo + M) (hn : lo ≤ n)
    (hn' : n < lo + M) (h : m % M = n % M) : m = n := by
  rw [← unwrap_mod hm hm', h, unwrap_mod hn hn']

end Word
