import SrsLte.BitString
import SrsLte.CodeBlockSegmentation
import SrsLte.Crc

/-!
# The turbo encoder

The bit-serial encoder, and the one that takes an octet at a time from tables and adds the checksums
on its way.
-/

namespace SrsLte

open OctetBits

/-- `f1_list`. -/
def f1List : List ℕ :=
  [3, 7, 19, 7, 7, 11, 5, 11, 7, 41, 103, 15, 9, 17, 9, 21, 101, 21, 57, 23, 13, 27, 11, 27, 85,
    29, 33, 15, 17, 33, 103, 19, 19, 37, 19, 21, 21, 115, 193, 21, 133, 81, 45, 23, 243, 151,
    155, 25, 51, 47, 91, 29, 29, 247, 29, 89, 91, 157, 55, 31, 17, 35, 227, 65, 19, 37, 41, 39,
    185, 43, 21, 155, 79, 139, 23, 217, 25, 17, 127, 25, 239, 17, 137, 215, 29, 15, 147, 29, 59,
    65, 55, 31, 17, 171, 67, 35, 19, 39, 19, 199, 21, 211, 21, 43, 149, 45, 49, 71, 13, 17, 25,
    183, 55, 127, 27, 29, 29, 57, 45, 31, 59, 185, 113, 31, 17, 171, 209, 253, 367, 265, 181, 39,
    27, 127, 143, 43, 29, 45, 157, 47, 13, 111, 443, 51, 51, 451, 257, 57, 313, 271, 179, 331,
    363, 375, 127, 31, 33, 43, 33, 477, 35, 233, 357, 337, 37, 71, 71, 37, 39, 127, 39, 39, 31,
    113, 41, 251, 43, 21, 43, 45, 45, 161, 89, 323, 47, 23, 47, 263]

/-- `f2_list`. -/
def f2List : List ℕ :=
  [10, 12, 42, 16, 18, 20, 22, 24, 26, 84, 90, 32, 34, 108, 38, 120, 84, 44, 46, 48, 50, 52, 36,
    56, 58, 60, 62, 32, 198, 68, 210, 36, 74, 76, 78, 120, 82, 84, 86, 44, 90, 46, 94, 48, 98,
    40, 102, 52, 106, 72, 110, 168, 114, 58, 118, 180, 122, 62, 84, 64, 66, 68, 420, 96, 74, 76,
    234, 80, 82, 252, 86, 44, 120, 92, 94, 48, 98, 80, 102, 52, 106, 48, 110, 112, 114, 58, 118,
    60, 122, 124, 84, 64, 66, 204, 140, 72, 74, 76, 78, 240, 82, 252, 86, 88, 60, 92, 846, 48,
    28, 80, 102, 104, 954, 96, 110, 112, 114, 116, 354, 120, 610, 124, 420, 64, 66, 136, 420,
    216, 444, 456, 468, 80, 164, 504, 172, 88, 300, 92, 188, 96, 28, 240, 204, 104, 212, 192,
    220, 336, 228, 232, 236, 120, 244, 248, 168, 64, 130, 264, 134, 408, 138, 280, 142, 480, 146,
    444, 120, 152, 462, 234, 158, 80, 96, 902, 166, 336, 170, 86, 174, 176, 178, 120, 182, 184,
    186, 94, 190, 480]

/-- `tcod_per_fw`, which `srslte_tcod_gentable` fills from `srslte_tc_interl_LTE_gen`. -/
def tcodPerFw (index i : ℕ) : ℕ :=
  let longCb := tcCbSizes.getD index 0
  if i = 0 ∨ longCb ≤ i then 0
  else (f1List.getD index 0 * i + f2List.getD index 0 * i * i) % longCb

/-- An octet of the portable loop of `srslte_bit_interleaver_run`, which starts at bit `i`. -/
def interleavedOctet (interleaver : ℕ → ℕ) (input : Bytes) (i : ℕ) : UInt8 :=
  (List.range 8).foldl (fun out j =>
    out ||| if input.getD (interleaver (i + j) / 8) 0 &&& mask (interleaver (i + j) % 8) != 0 then
      mask j else 0) 0

/-- Two octets of the SSE loop: octet `j` of the vector is the one that the shuffle pairs with bit
`j` of the mask of moved signs, and the lower octet of that is stored first. -/
def interleavedOctetsSse (interleaver : ℕ → ℕ) (input : Bytes) (i : ℕ) : Bytes :=
  let place (k : ℕ) : ℕ := if k < 8 then 7 - k else 23 - k
  let moved : ℕ := (List.range 16).foldl (fun acc k =>
    let m := mask (interleaver (i + place k) % 8)
    acc ||| if input.getD (interleaver (i + place k) / 8) 0 &&& m == m then 1 <<< k else 0) 0
  [UInt8.ofNat (moved % 2 ^ 8), UInt8.ofNat (moved / 2 ^ 8)]

/-- `srslte_bit_interleaver_run` on whole octets from offset 0, from bit `i` on; with SSE, sixteen
bits at a time while there are as many. -/
def bitInterleaverRun (sse : Bool) (interleaver : ℕ → ℕ) (input : Bytes) : ℕ → ℕ → Bytes
  | 0, _ => []
  | 1, i => [interleavedOctet interleaver input i]
  | octets + 2, i =>
    if sse then
      interleavedOctetsSse interleaver input i ++
        bitInterleaverRun sse interleaver input octets (i + 16)
    else
      interleavedOctet interleaver input i ::
        bitInterleaverRun sse interleaver input (octets + 1) (i + 8)

structure TcodRegs where
  reg0 : Bool
  reg1 : Bool
  reg2 : Bool
  deriving DecidableEq

namespace TcodRegs

def zero : TcodRegs := ⟨false, false, false⟩

def input (r : TcodRegs) (bit : Bool) : Bool := bit ^^ (r.reg2 ^^ r.reg1)

def output (r : TcodRegs) (bit : Bool) : Bool := r.reg2 ^^ (r.reg0 ^^ r.input bit)

def shift (r : TcodRegs) (bit : Bool) : TcodRegs := ⟨r.input bit, r.reg0, r.reg1⟩

/-- A tailing coder: the bit that clears the register, and the parity, `n` times. -/
def tail : ℕ → TcodRegs → List Bool
  | 0, _ => []
  | n + 1, r =>
    let bit := r.reg2 ^^ r.reg1
    bit :: r.output bit :: tail n (r.shift bit)

def state (r : TcodRegs) : ℕ := r.reg0.toNat * 4 + r.reg1.toNat * 2 + r.reg2.toNat

def ofState (state : ℕ) : TcodRegs := ⟨state.testBit 2, state.testBit 1, state.testBit 0⟩

end TcodRegs

/-- `SRSLTE_TX_NULL` counts as zero. -/
def txBit (bit : Option Bool) : Bool := bit.getD false

/-- The body of the main loop of `srslte_tcod_encode`: both registers and the output. -/
def tcodStep (input : List (Option Bool)) (per : ℕ → ℕ)
    (s : TcodRegs × TcodRegs × List (Option Bool)) (i : ℕ) :
    TcodRegs × TcodRegs × List (Option Bool) :=
  let x := input.getD i none
  let y := txBit (input.getD (per i) none)
  (s.1.shift (txBit x), s.2.1.shift y,
    s.2.2 ++ [x, x.map fun _ => s.1.output (txBit x), some (s.2.1.output y)])

/-- `srslte_tcod_encode`. -/
def tcodEncode (maxLongCb : ℕ) (input : List (Option Bool)) (longCb : ℕ) :
    Option (List (Option Bool)) :=
  if longCb > maxLongCb then none
  else
    (cbsegmCbindex longCb).map fun index =>
      let s := (List.range longCb).foldl (tcodStep input (tcodPerFw index)) (.zero, .zero, [])
      s.2.2 ++ (s.1.tail 3 ++ s.2.1.tail 3).map some

/-- `srslte_tcod_gentable`: the next state and the parity for a state and an octet. -/
def tcodLut (state : ℕ) (data : UInt8) : ℕ × UInt8 :=
  let s := (List.range 8).foldl (fun s i =>
    (s.1.shift (bit data i), s.2 ||| if s.1.output (bit data i) then mask i else 0))
    (TcodRegs.ofState state, 0)
  (s.1.state, s.2)

/-- Where the loops over the block are: the checksums, the state of the first encoder, and the
octets of the block and of its parity so far. -/
structure TcodLutRun where
  crcTb : ℕ
  crcCb : ℕ
  state0 : ℕ
  block : Bytes
  parity : Bytes

namespace TcodLutRun

/-- The body of the loops: which checksums get the octet is different from loop to loop. -/
def put (crcTb crcCb : Option Crc) (s : TcodLutRun) (octet : UInt8) : TcodLutRun where
  crcTb := match crcTb with
    | some h => h.putByte s.crcTb octet
    | none => s.crcTb
  crcCb := match crcCb with
    | some h => h.putByte s.crcCb octet
    | none => s.crcCb
  state0 := (tcodLut s.state0 octet).1
  block := s.block ++ [octet]
  parity := s.parity ++ [(tcodLut s.state0 octet).2]

def attachTb (crcTb : Crc) (crcCb : Option Crc) (lastCb : Bool) (s : TcodLutRun) : TcodLutRun :=
  if lastCb then (crcTb.octets (crcTb.checksumGet s.crcTb)).foldl (put none crcCb) s else s

def attachCb (crcCb : Option Crc) (s : TcodLutRun) : TcodLutRun :=
  match crcCb with
  | some h => (h.octets (h.checksumGet s.crcCb)).foldl (put none none) s
  | none => s

end TcodLutRun

def blockSizeNoCrc (crcTb : Crc) (crcCb : Option Crc) (longCb : ℕ) (lastCb : Bool) : ℕ :=
  (longCb - (crcCb.elim 0 Crc.order) - (if lastCb then crcTb.order else 0)) / 8

/-- The first part of `srslte_tcod_encode_lut`: the block with its checksums, and the first encoder.
The checksum of the transport block comes from the blocks before. -/
def tcodLutBlock (crcTb : Crc) (crcTbInit : ℕ) (crcCb : Option Crc) (input : Bytes) (longCb : ℕ)
    (lastCb : Bool) : TcodLutRun :=
  let data := input.take (blockSizeNoCrc crcTb crcCb longCb lastCb)
  let s := data.foldl (TcodLutRun.put (some crcTb) crcCb) ⟨crcTbInit, 0, 0, [], []⟩
  (s.attachTb crcTb crcCb lastCb).attachCb crcCb

/-- The parity of the second encoder for the interleaved octets, and its last state; `octet` is the
one begun. -/
def tcodLutParity : ℕ → UInt8 → Bytes → Bytes × ℕ
  | state1, octet, [] => ([octet], state1)
  | state1, octet, b :: bs =>
    let l := tcodLut state1 b
    let r := tcodLutParity l.1 ((l.2 &&& 0xF) <<< 4) bs
    ((octet ||| (l.2 &&& 0xF0) >>> 4) :: r.1, r.2)

/-- `srslte_bit_pack` of four bits. -/
def packFour (f : ℕ → Bool) : UInt8 :=
  (List.range 4).foldl (fun acc i => acc ||| if f i then 1 <<< UInt8.ofNat (3 - i) else 0) 0

/-- What `srslte_tcod_encode_lut` leaves in `input` and `parity`, and the checksum of the transport
block so far. -/
structure TcodLutEncoded where
  crcTb : ℕ
  input : Bytes
  parity : Bytes

/-- The last part of `srslte_tcod_encode_lut`: the tail bits. -/
def tcodLutTail (s : TcodLutRun) (second : Bytes × ℕ) (longCb : ℕ) : TcodLutEncoded :=
  let tail := (TcodRegs.ofState s.state0).tail 3 ++ (TcodRegs.ofState second.2).tail 3
  let tailv (j i : ℕ) : Bool := tail.getD (3 * i + j) false
  { crcTb := s.crcTb
    input := s.block ++ [packFour (tailv 0) <<< 4]
    parity := s.parity ++
      (second.1.modify 0 (· ||| packFour (tailv 1) <<< 4)).modify (longCb / 8)
        (· ||| (packFour (tailv 2) &&& 0xF)) }

/-- `srslte_tcod_encode_lut`. -/
def tcodEncodeLut (sse : Bool) (crcTb : Crc) (crcTbInit : ℕ) (crcCb : Option Crc) (input : Bytes)
    (cblenIdx : ℕ) (lastCb : Bool) : Option TcodLutEncoded :=
  (cbsegmCbsize cblenIdx).bind fun longCb =>
    if longCb % 8 ≠ 0 then none
    else
      let s := tcodLutBlock crcTb crcTbInit crcCb input longCb lastCb
      let temp := bitInterleaverRun sse (tcodPerFw cblenIdx) s.block (longCb / 8) 0
      some (tcodLutTail s (tcodLutParity 0 0 temp) longCb)

end SrsLte

/-!
Both are described by the registers after each bit. The table turns the registers over eight bits
into one step; the parity of the second encoder starts in the middle of an octet, behind the tail of
the first one.
-/

namespace SrsLte

open OctetBits

namespace TcodRegs

/-- The registers after `n` bits. -/
def run (r : TcodRegs) (f : ℕ → Bool) : ℕ → TcodRegs
  | 0 => r
  | n + 1 => (run r f n).shift (f n)

/-- The parity for bit `i`. -/
def parityAt (r : TcodRegs) (f : ℕ → Bool) (i : ℕ) : Bool := (r.run f i).output (f i)

variable {r : TcodRegs} {f g : ℕ → Bool} {m n : ℕ}

@[simp] theorem ofState_state (r : TcodRegs) : ofState r.state = r := by
  rcases r with ⟨_ | _, _ | _, _ | _⟩ <;> rfl

theorem run_congr (h : ∀ i < n, f i = g i) : r.run f n = r.run g n := by
  induction n with
  | zero => rfl
  | succ n ih =>
    rw [run, run, ih fun i hi => h i (Nat.lt_succ_of_lt hi), h n (Nat.lt_succ_self n)]

theorem parityAt_congr (h : ∀ i ≤ n, f i = g i) : r.parityAt f n = r.parityAt g n := by
  unfold parityAt
  rw [run_congr fun i hi => h i (Nat.le_of_lt hi), h n (Nat.le_refl n)]

theorem run_add (r : TcodRegs) (f : ℕ → Bool) (m n : ℕ) :
    r.run f (m + n) = (r.run f m).run (fun i => f (m + i)) n := by
  induction n with
  | zero => rfl
  | succ n ih => rw [← Nat.add_assoc, run, ih, run]

theorem parityAt_add (r : TcodRegs) (f : ℕ → Bool) (m n : ℕ) :
    r.parityAt f (m + n) = (r.run f m).parityAt (fun i => f (m + i)) n := by
  unfold parityAt
  rw [run_add]

theorem length_tail (r : TcodRegs) (n : ℕ) : (r.tail n).length = 2 * n := by
  induction n generalizing r with
  | zero => rfl
  | succ n ih => rw [tail, List.length_cons, List.length_cons, ih, Nat.mul_succ]

end TcodRegs

section Serial

variable {α : Type*} {g : ℕ → List α} {n i j : ℕ}

theorem length_flatMap_range (hg : ∀ i, (g i).length = 3) (n : ℕ) :
    ((List.range n).flatMap g).length = 3 * n := by
  induction n with
  | zero => rfl
  | succ n ih =>
    rw [List.range_succ, List.flatMap_append, List.length_append, ih, List.flatMap_singleton, hg,
      Nat.mul_succ]

theorem getElem?_flatMap_range (hg : ∀ i, (g i).length = 3) (hi : i < n) (hj : j < 3) :
    ((List.range n).flatMap g)[3 * i + j]? = (g i)[j]? := by
  have hlen := length_flatMap_range hg
  induction n with
  | zero => exact absurd hi (Nat.not_lt_zero i)
  | succ n ih =>
    rw [List.range_succ, List.flatMap_append, List.flatMap_singleton]
    rcases Nat.lt_succ_iff_lt_or_eq.mp hi with hlt | rfl
    · rw [List.getElem?_append_left (by rw [hlen]; omega), ih hlt]
    · rw [List.getElem?_append_right (by rw [hlen]; omega), hlen, Nat.add_sub_cancel_left]

end Serial

theorem tcodStep_run (input : List (Option Bool)) (per : ℕ → ℕ) (n : ℕ) :
    (List.range n).foldl (tcodStep input per) (.zero, .zero, []) =
      (TcodRegs.zero.run (fun i => txBit (input.getD i none)) n,
        TcodRegs.zero.run (fun i => txBit (input.getD (per i) none)) n,
        (List.range n).flatMap fun i =>
          [input.getD i none,
            (input.getD i none).map fun _ =>
              TcodRegs.zero.parityAt (fun i => txBit (input.getD i none)) i,
            some (TcodRegs.zero.parityAt (fun i => txBit (input.getD (per i) none)) i)]) := by
  induction n with
  | zero => rfl
  | succ n ih =>
    rw [List.range_succ, List.foldl_append, ih, List.flatMap_append, List.flatMap_singleton]
    rfl

theorem tcodLut_run (r : TcodRegs) (data : UInt8) (n : ℕ) :
    (List.range n).foldl (fun s i =>
        (s.1.shift (bit data i), s.2 ||| if s.1.output (bit data i) then mask i else 0)) (r, 0) =
      (r.run (bit data) n,
        (List.range n).foldl
          (fun acc i => acc ||| if r.parityAt (bit data) i then mask i else 0) 0) := by
  induction n with
  | zero => rfl
  | succ n ih =>
    rw [List.range_succ, List.foldl_append, ih, List.foldl_append]
    rfl

theorem tcodLut_state (r : TcodRegs) (data : UInt8) :
    tcodLut r.state data = ((r.run (bit data) 8).state, pack (r.parityAt (bit data))) := by
  unfold tcodLut
  rw [TcodRegs.ofState_state, tcodLut_run]
  rfl

structure TcodLutRun.Encodes (s : TcodLutRun) : Prop where
  state0 : s.state0 = (TcodRegs.zero.run (bitAt s.block) (8 * s.block.length)).state
  length : s.parity.length = s.block.length
  parity : ∀ i < 8 * s.block.length,
    bitAt s.parity i = TcodRegs.zero.parityAt (bitAt s.block) i

theorem bitAt_singleton (b : UInt8) {i : ℕ} (hi : i < 8) : bitAt [b] i = bit b i := by
  unfold bitAt
  rw [Nat.div_eq_of_lt hi, Nat.mod_eq_of_lt hi]
  rfl

namespace TcodLutRun

variable {s : TcodLutRun} {crcTb crcCb : Option Crc}

@[simp] theorem put_state0 (octet : UInt8) :
    (s.put crcTb crcCb octet).state0 = (tcodLut s.state0 octet).1 := rfl

@[simp] theorem put_block (octet : UInt8) :
    (s.put crcTb crcCb octet).block = s.block ++ [octet] := rfl

@[simp] theorem put_parity (octet : UInt8) :
    (s.put crcTb crcCb octet).parity = s.parity ++ [(tcodLut s.state0 octet).2] := rfl

theorem Encodes.put (h : s.Encodes) (octet : UInt8) : (s.put crcTb crcCb octet).Encodes := by
  have hold : ∀ i < 8 * s.block.length, bitAt (s.block ++ [octet]) i = bitAt s.block i :=
    fun i hi => bitAt_append_left _ hi
  have hnew : ∀ i < 8, bitAt (s.block ++ [octet]) (8 * s.block.length + i) = bit octet i := by
    intro i hi
    rw [bitAt_append_right, bitAt_singleton _ hi]
  have hregs : TcodRegs.zero.run (bitAt (s.block ++ [octet])) (8 * s.block.length) =
      TcodRegs.zero.run (bitAt s.block) (8 * s.block.length) := TcodRegs.run_congr hold
  have hlut := tcodLut_state (TcodRegs.zero.run (bitAt s.block) (8 * s.block.length)) octet
  rw [← h.state0] at hlut
  constructor
  · rw [put_state0, put_block, List.length_append, List.length_singleton, Nat.mul_succ,
      TcodRegs.run_add, hregs, hlut]
    exact congrArg TcodRegs.state (TcodRegs.run_congr fun i hi => (hnew i hi).symm)
  · rw [put_block, put_parity, List.length_append, List.length_append, h.length]
    rfl
  · intro i hi
    rw [put_block, List.length_append, List.length_singleton, Nat.mul_succ] at hi
    rw [put_block, put_parity]
    rcases Nat.lt_or_ge i (8 * s.block.length) with hlt | hge
    · rw [bitAt_append_left _ (by rw [h.length]; exact hlt), h.parity i hlt]
      exact TcodRegs.parityAt_congr fun j hj => (hold j (Nat.lt_of_le_of_lt hj hlt)).symm
    · obtain ⟨k, rfl⟩ := Nat.exists_eq_add_of_le hge
      have hk : k < 8 := by omega
      rw [← h.length, bitAt_append_right, h.length, bitAt_singleton _ hk, hlut, bit_pack _ hk,
        TcodRegs.parityAt_add, hregs]
      exact TcodRegs.parityAt_congr fun j hj => (hnew j (Nat.lt_of_le_of_lt hj hk)).symm

theorem Encodes.run (h : s.Encodes) (octets : Bytes) :
    (octets.foldl (TcodLutRun.put crcTb crcCb) s).Encodes := by
  induction octets generalizing s with
  | nil => exact h
  | cons b octets ih => exact ih (h.put b)

theorem foldl_put_block (octets : Bytes) (s : TcodLutRun) :
    (octets.foldl (TcodLutRun.put crcTb crcCb) s).block = s.block ++ octets := by
  induction octets generalizing s with
  | nil => exact (List.append_nil _).symm
  | cons b octets ih =>
    rw [List.foldl_cons, ih]
    exact List.append_assoc s.block [b] octets

theorem foldl_put_crcTb (h : Crc) (octets : Bytes) (s : TcodLutRun) :
    (octets.foldl (TcodLutRun.put (some h) crcCb) s).crcTb =
      octets.foldl h.putByte s.crcTb := by
  induction octets generalizing s with
  | nil => rfl
  | cons b octets ih => exact ih _

theorem foldl_put_crcTb_none (octets : Bytes) (s : TcodLutRun) :
    (octets.foldl (TcodLutRun.put none crcCb) s).crcTb = s.crcTb := by
  induction octets generalizing s with
  | nil => rfl
  | cons b octets ih => exact ih _

def Checked (crcCb : Option Crc) (s : TcodLutRun) : Prop :=
  ∀ h, crcCb = some h → s.crcCb = s.block.foldl h.putByte 0

theorem Checked.run (hs : s.Checked crcCb) (octets : Bytes) :
    (octets.foldl (TcodLutRun.put crcTb crcCb) s).Checked crcCb := by
  induction octets generalizing s with
  | nil => exact hs
  | cons b octets ih =>
    refine ih fun h hh => ?_
    subst hh
    rw [put_block, List.foldl_append, ← hs h rfl]
    rfl

end TcodLutRun

def tbOctets (crcTb : Crc) (crcTbInit : ℕ) (data : Bytes) (lastCb : Bool) : Bytes :=
  if lastCb then crcTb.octets (crcTb.checksumGet (data.foldl crcTb.putByte crcTbInit)) else []

def cbOctets (crcCb : Option Crc) (data : Bytes) : Bytes :=
  crcCb.elim [] fun h => h.octets (h.checksumGet (data.foldl h.putByte 0))

namespace TcodLutRun

variable {s : TcodLutRun} {crcTb : Crc} {crcCb : Option Crc} {lastCb : Bool}

theorem Encodes.attachTb (h : s.Encodes) : (s.attachTb crcTb crcCb lastCb).Encodes := by
  cases lastCb with
  | false => exact h
  | true => exact h.run _

theorem Encodes.attachCb (h : s.Encodes) : (s.attachCb crcCb).Encodes := by
  cases crcCb with
  | none => exact h
  | some _ => exact h.run _

theorem attachTb_crcTb : (s.attachTb crcTb crcCb lastCb).crcTb = s.crcTb := by
  cases lastCb with
  | false => rfl
  | true => exact foldl_put_crcTb_none _ s

theorem attachCb_crcTb : (s.attachCb crcCb).crcTb = s.crcTb := by
  cases crcCb with
  | none => rfl
  | some _ => exact foldl_put_crcTb_none _ s

theorem attachTb_block {init : ℕ} {data : Bytes} (hblock : s.block = data)
    (hcrc : s.crcTb = data.foldl crcTb.putByte init) :
    (s.attachTb crcTb crcCb lastCb).block = data ++ tbOctets crcTb init data lastCb := by
  unfold TcodLutRun.attachTb tbOctets
  cases lastCb with
  | false => exact hblock.trans (List.append_nil _).symm
  | true => rw [if_pos rfl, if_pos rfl, foldl_put_block, hblock, hcrc]

theorem Checked.attachTb (hs : s.Checked crcCb) :
    (s.attachTb crcTb crcCb lastCb).Checked crcCb := by
  cases lastCb with
  | false => exact hs
  | true => exact hs.run _

theorem attachCb_block (hs : s.Checked crcCb) :
    (s.attachCb crcCb).block = s.block ++ cbOctets crcCb s.block := by
  cases crcCb with
  | none => exact (List.append_nil _).symm
  | some h =>
    refine (foldl_put_block _ s).trans ?_
    rw [hs h rfl]
    rfl

end TcodLutRun

section Block

variable {crcTb : Crc} {crcTbInit longCb : ℕ} {crcCb : Option Crc} {input : Bytes} {lastCb : Bool}

theorem tcodLutBlock_encodes :
    (tcodLutBlock crcTb crcTbInit crcCb input longCb lastCb).Encodes := by
  have hstart : TcodLutRun.Encodes ⟨crcTbInit, 0, 0, [], []⟩ :=
    ⟨rfl, rfl, fun i hi => absurd hi (Nat.not_lt_zero i)⟩
  exact ((hstart.run _).attachTb).attachCb

theorem tcodLutBlock_crcTb :
    (tcodLutBlock crcTb crcTbInit crcCb input longCb lastCb).crcTb =
      (input.take (blockSizeNoCrc crcTb crcCb longCb lastCb)).foldl crcTb.putByte crcTbInit := by
  unfold tcodLutBlock
  rw [TcodLutRun.attachCb_crcTb, TcodLutRun.attachTb_crcTb]
  exact TcodLutRun.foldl_put_crcTb _ _ _

theorem tcodLutBlock_block {data : Bytes}
    (hdata : input.take (blockSizeNoCrc crcTb crcCb longCb lastCb) = data) :
    (tcodLutBlock crcTb crcTbInit crcCb input longCb lastCb).block =
      data ++ tbOctets crcTb crcTbInit data lastCb ++
        cbOctets crcCb (data ++ tbOctets crcTb crcTbInit data lastCb) := by
  have hchecked : TcodLutRun.Checked crcCb ⟨crcTbInit, 0, 0, [], []⟩ := fun h _ => rfl
  have hblock : (data.foldl (TcodLutRun.put (some crcTb) crcCb)
      ⟨crcTbInit, 0, 0, [], []⟩).block = data := TcodLutRun.foldl_put_block data _
  have hcrc : (data.foldl (TcodLutRun.put (some crcTb) crcCb)
      ⟨crcTbInit, 0, 0, [], []⟩).crcTb = data.foldl crcTb.putByte crcTbInit :=
    TcodLutRun.foldl_put_crcTb crcTb data _
  unfold tcodLutBlock
  rw [hdata]
  dsimp only
  rw [TcodLutRun.attachCb_block (hchecked.run data).attachTb,
    TcodLutRun.attachTb_block hblock hcrc]

end Block

end SrsLte
