import Mathlib.Data.List.Basic
import SrsLte.IndexTypes

/-!
# Byte buffers

A `byte_buffer_t` is an array of fixed size with a message inside it: the headroom in front of the
message, the message, and the tailroom behind it. Moving the start of the message changes the
headroom only.
-/

namespace SrsLte

abbrev Bytes := List UInt8

/-- `SRSLTE_MAX_TBSIZE_BITS / 8 + SRSLTE_BUFFER_HEADER_OFFSET`. -/
def maxBufferSizeBytes : ℕ := 97896 / 8 + 1020

structure ByteBuffer where
  headroom : ℕ
  msg : Bytes
  fits : headroom + msg.length ≤ maxBufferSizeBytes

namespace ByteBuffer

def nBytes (b : ByteBuffer) : ℕ := b.msg.length

def tailroom (b : ByteBuffer) : ℕ := maxBufferSizeBytes - b.headroom - b.nBytes

def overwrite (b : ByteBuffer) (msg : Bytes) (h : msg.length = b.msg.length) : ByteBuffer where
  headroom := b.headroom
  msg := msg
  fits := h ▸ b.fits

/-- Adds `hdr` in front of the message, given the headroom for it. -/
def prepend (b : ByteBuffer) (hdr : Bytes) (h : hdr.length ≤ b.headroom) : ByteBuffer where
  headroom := b.headroom - hdr.length
  msg := hdr ++ b.msg
  fits := by
    have := b.fits
    rw [List.length_append]
    omega

/-- Adds `tail` behind the message, given the tailroom for it. -/
def append (b : ByteBuffer) (tail : Bytes) (h : tail.length ≤ b.tailroom) : ByteBuffer where
  headroom := b.headroom
  msg := b.msg ++ tail
  fits := by
    have := b.fits
    unfold tailroom nBytes at h
    rw [List.length_append]
    omega

theorem tailroom_append (b : ByteBuffer) (tail : Bytes) (h : tail.length ≤ b.tailroom) :
    (b.append tail h).tailroom = b.tailroom - tail.length := by
  change maxBufferSizeBytes - b.headroom - (b.msg ++ tail).length =
    maxBufferSizeBytes - b.headroom - b.msg.length - tail.length
  rw [List.length_append, Nat.sub_add_eq]

theorem nBytes_prepend (b : ByteBuffer) (hdr : Bytes) (h : hdr.length ≤ b.headroom) :
    (b.prepend hdr h).nBytes = hdr.length + b.nBytes :=
  List.length_append

theorem tailroom_prepend (b : ByteBuffer) (hdr : Bytes) (h : hdr.length ≤ b.headroom) :
    (b.prepend hdr h).tailroom = b.tailroom := by
  have hfits := b.fits
  unfold tailroom
  rw [nBytes_prepend]
  change maxBufferSizeBytes - (b.headroom - hdr.length) - (hdr.length + b.msg.length) =
    maxBufferSizeBytes - b.headroom - b.msg.length
  omega

end ByteBuffer
end SrsLte

/-!
A reader that goes beyond the bytes it was given finds what follows them in memory.
-/

namespace SrsLte

def memory (bytes : Bytes) (behind : ℕ → UInt8) (i : ℕ) : UInt8 :=
  if h : i < bytes.length then bytes[i] else behind i

def bytesAt (mem : ℕ → UInt8) (start n : ℕ) : Bytes := (List.range n).map fun i => mem (start + i)

variable {bytes rest : Bytes} {b : UInt8} {behind : ℕ → UInt8} {ptr : ℕ}

theorem memory_of_drop (h : bytes.drop ptr = b :: rest) : memory bytes behind ptr = b := by
  have hget : bytes[ptr]? = some b := by
    rw [← List.head?_drop, h]
    rfl
  obtain ⟨hlt, hb⟩ := List.getElem?_eq_some_iff.mp hget
  exact (dif_pos hlt).trans hb

theorem drop_succ_of_drop (h : bytes.drop ptr = b :: rest) : bytes.drop (ptr + 1) = rest := by
  rw [← List.drop_drop, h]
  rfl

theorem lt_length_of_drop (h : bytes.drop ptr = b :: rest) : ptr < bytes.length := by
  have hlength := congrArg List.length h
  rw [List.length_drop, List.length_cons] at hlength
  omega

@[simp] theorem length_bytesAt (mem : ℕ → UInt8) (start n : ℕ) :
    (bytesAt mem start n).length = n := by
  rw [bytesAt, List.length_map, List.length_range]

theorem bytesAt_of_drop {a : Bytes} (h : bytes.drop ptr = a ++ rest) :
    bytesAt (memory bytes behind) ptr a.length = a := by
  induction a generalizing ptr with
  | nil => rfl
  | cons b a ih =>
    have hnext := ih (drop_succ_of_drop h)
    unfold bytesAt at hnext ⊢
    rw [List.length_cons, List.range_succ_eq_map, List.map_cons, List.map_map, Nat.add_zero,
      memory_of_drop h]
    refine congrArg (b :: ·) ?_
    conv_rhs => rw [← hnext]
    refine List.map_congr_left fun i _ => ?_
    change memory bytes behind (ptr + (i + 1)) = memory bytes behind (ptr + 1 + i)
    rw [Nat.add_assoc, Nat.add_comm 1 i]

theorem memory_zero_eq_getD (bytes : Bytes) :
    memory bytes (fun _ => 0) = fun i => bytes.getD i 0 := by
  funext i
  unfold memory
  rw [List.getD_eq_getElem?_getD]
  split_ifs with hi
  · rw [List.getElem?_eq_getElem hi, Option.getD_some]
  · rw [List.getElem?_eq_none (Nat.le_of_not_lt hi), Option.getD_none]

end SrsLte
