import SrsLte.LengthIndicators

/-!
# Conversions between bytes and integers

The functions of `int_helpers.h`, most significant byte first.
-/

namespace SrsLte
namespace IntHelpers

open LengthIndicators

def uint16ToUint8 (i : UInt16) : Bytes :=
  [UInt8.ofNat ((i.toNat >>> 8) &&& 0xFF), UInt8.ofNat (i.toNat &&& 0xFF)]

def uint32ToUint8 (i : UInt32) : Bytes :=
  [UInt8.ofNat ((i.toNat >>> 24) &&& 0xFF), UInt8.ofNat ((i.toNat >>> 16) &&& 0xFF),
    UInt8.ofNat ((i.toNat >>> 8) &&& 0xFF), UInt8.ofNat (i.toNat &&& 0xFF)]

/-- `uint8_to_uint16` at a position of the memory. -/
def uint8ToUint16 (mem : ℕ → UInt8) (ptr : ℕ) : UInt16 :=
  UInt16.ofNat ((mem ptr).toNat <<< 8 ||| (mem (ptr + 1)).toNat)

/-- `uint8_to_uint32` at a position of the memory. -/
def uint8ToUint32 (mem : ℕ → UInt8) (ptr : ℕ) : UInt32 :=
  UInt32.ofNat ((mem ptr).toNat <<< 24 ||| (mem (ptr + 1)).toNat <<< 16 |||
    (mem (ptr + 2)).toNat <<< 8 ||| (mem (ptr + 3)).toNat)

theorem toNat_byte (n k : ℕ) : (UInt8.ofNat ((n >>> k) &&& 0xFF)).toNat = n / 2 ^ k % 256 := by
  have hlow : (n >>> k) &&& 0xFF = (n >>> k) % 256 := and_low _ 8
  rw [hlow, toNat_ofNat (Nat.mod_lt _ (by decide)), Nat.shiftRight_eq_div_pow]

theorem toNat_lowByte (n : ℕ) : (UInt8.ofNat (n &&& 0xFF)).toNat = n % 256 := by
  have hlow : n &&& 0xFF = n % 256 := and_low _ 8
  rw [hlow, toNat_ofNat (Nat.mod_lt _ (by decide))]

theorem toNat_uint8ToUint16 (mem : ℕ → UInt8) (ptr : ℕ) :
    (uint8ToUint16 mem ptr).toNat = (mem ptr).toNat * 256 + (mem (ptr + 1)).toNat := by
  have h0 := (mem ptr).toNat_lt
  have h1 := (mem (ptr + 1)).toNat_lt
  unfold uint8ToUint16
  rw [or_high h1, UInt16.toNat_ofNat']
  omega

theorem toNat_uint8ToUint32 (mem : ℕ → UInt8) (ptr : ℕ) :
    (uint8ToUint32 mem ptr).toNat = (mem ptr).toNat * 2 ^ 24 + (mem (ptr + 1)).toNat * 2 ^ 16 +
      (mem (ptr + 2)).toNat * 2 ^ 8 + (mem (ptr + 3)).toNat := by
  have h0 := (mem ptr).toNat_lt
  have h1 := (mem (ptr + 1)).toNat_lt
  have h2 := (mem (ptr + 2)).toNat_lt
  have h3 := (mem (ptr + 3)).toNat_lt
  unfold uint8ToUint32
  rw [Nat.or_assoc, Nat.or_assoc, or_high (k := 8) h3, or_high (k := 16) (by omega),
    or_high (k := 24) (by omega), UInt32.toNat_ofNat']
  omega

variable {mem : ℕ → UInt8} {ptr : ℕ}

theorem uint8ToUint16_eq {i : UInt16}
    (h0 : mem ptr = UInt8.ofNat ((i.toNat >>> 8) &&& 0xFF))
    (h1 : mem (ptr + 1) = UInt8.ofNat (i.toNat &&& 0xFF)) : uint8ToUint16 mem ptr = i := by
  have hi := i.toNat_lt
  apply UInt16.toNat_inj.mp
  rw [toNat_uint8ToUint16, h0, h1, toNat_byte, toNat_lowByte]
  omega

theorem uint8ToUint32_eq {i : UInt32}
    (h0 : mem ptr = UInt8.ofNat ((i.toNat >>> 24) &&& 0xFF))
    (h1 : mem (ptr + 1) = UInt8.ofNat ((i.toNat >>> 16) &&& 0xFF))
    (h2 : mem (ptr + 2) = UInt8.ofNat ((i.toNat >>> 8) &&& 0xFF))
    (h3 : mem (ptr + 3) = UInt8.ofNat (i.toNat &&& 0xFF)) : uint8ToUint32 mem ptr = i := by
  have hi := i.toNat_lt
  apply UInt32.toNat_inj.mp
  rw [toNat_uint8ToUint32, h0, h1, h2, h3, toNat_byte, toNat_byte, toNat_byte, toNat_lowByte]
  omega

end IntHelpers
end SrsLte
