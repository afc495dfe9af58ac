import Mathlib.Logic.Function.Basic
import SrsLte.CodeBlockSegmentation
import SrsLte.TurboCoder
import SrsLte.TurboCoderAgreement

/-!
# Shared channel coding

Both sides find out by themselves where the code blocks lie, in the transport block and in the coded
bits. Rate matching and the turbo decoder are parameters.
-/

namespace SrsLte

/-- A code block: its size and the index of that, the length of its part of the transport block, the
first bit of that and the first coded bit, and the number of coded bits. -/
structure CodeBlock where
  cbLen : ℕ
  cbLenIdx : ℕ
  rlen : ℕ
  rp : ℕ
  wp : ℕ
  nE : ℕ
  deriving DecidableEq

namespace Cbsegm

variable (s : Cbsegm) (qm nofEBits : ℕ)

def gamma : ℕ := if s.c > 0 then nofEBits / qm % s.c else nofEBits / qm

/-- The body of the loop of `encode_tb_off` for block `i`, up to the lengths. -/
def encodeBlock (i rp wp : ℕ) : CodeBlock :=
  let cbLen := if i < s.c2 then s.k2 else s.k1
  { cbLen := cbLen
    cbLenIdx := if i < s.c2 then s.k2Idx else s.k1Idx
    rlen := if s.c > 1 then cbLen - 24 else cbLen
    rp := rp
    wp := wp
    nE :=
      if i ≤ s.c - s.gamma qm nofEBits - 1 then qm * (nofEBits / qm / s.c)
      else qm * ceilfDiv (nofEBits / qm) s.c }

/-- The blocks of `encode_tb_off` from block `i` on. -/
def encodeBlocks : ℕ → ℕ → ℕ → ℕ → List CodeBlock
  | 0, _, _, _ => []
  | n + 1, i, rp, wp =>
    let b := s.encodeBlock qm nofEBits i rp wp
    b :: encodeBlocks n (i + 1) (rp + b.rlen) (wp + b.nE)

/-- The lengths and positions that `decode_tb_cb` computes for a block. -/
def decodeBlock (cbIdx : ℕ) : CodeBlock :=
  let cbLen := if cbIdx < s.c1 then s.k1 else s.k2
  let rlen := if s.c = 1 then cbLen else cbLen - 24
  let gamma := s.gamma qm nofEBits
  let nE := qm * (nofEBits / qm / s.c)
  { cbLen := cbLen
    cbLenIdx := if cbIdx < s.c1 then s.k1Idx else s.k2Idx
    rlen := rlen
    rp := cbIdx * rlen
    wp :=
      if cbIdx > s.c - gamma then (s.c - gamma) * nE + (cbIdx - (s.c - gamma)) * (nE + qm)
      else cbIdx * nE
    nE := if cbIdx > s.c - gamma then nE + qm else nE }

end Cbsegm

structure SchEnv (α : Type*) where
  sse : Bool
  /-- `srslte_rm_turbo_tx_lut` with the buffer of code block `i`. -/
  rmTurboTx : (i cbLenIdx : ℕ) → (systematic parity : Bytes) → (nE rv : ℕ) → List Bool
  length_rmTurboTx : ∀ i idx systematic parity nE rv,
    (rmTurboTx i idx systematic parity nE rv).length = nE
  /-- `srslte_rm_turbo_rx_lut` with the buffer of code block `i`, and what each iteration of the
  turbo decoder writes then. -/
  tdecIteration : (i cbLenIdx rv : ℕ) → List α → (iteration : ℕ) → ℕ → UInt8
  maxIterations : ℕ

namespace SchEnv

variable {α : Type*} (E : SchEnv α) (s : Cbsegm) (qm rv nofEBits : ℕ)

/-- What `encode_tb_off` copies to `cb_in` for block `i`. -/
def cbIn (data : Bytes) (i : ℕ) (b : CodeBlock) : Bytes :=
  (data.drop (b.rp / 8)).take ((if i < s.c - 1 then b.rlen else b.rlen - 24) / 8)

def cbCrc : Option Crc := if s.c > 1 then some Crc.crcCb else none

/-- The loop of `encode_tb_off` from block `i` on, with the checksum of the transport block so
far: what the encoder makes of each block, and its coded bits. -/
def encodeLoop (data : Bytes) :
    List CodeBlock → ℕ → ℕ → Option (List (TcodLutEncoded × List Bool))
  | [], _, _ => some []
  | b :: bs, i, crcTb =>
    (tcodEncodeLut E.sse Crc.crcTb crcTb (cbCrc s) (cbIn s data i b) b.cbLenIdx
        (decide (¬ i < s.c - 1))).bind fun lut =>
      (encodeLoop data bs (i + 1) lut.crcTb).map fun rest =>
        (lut, E.rmTurboTx i b.cbLenIdx lut.input lut.parity b.nE rv) :: rest

/-- `encode_tb_off`, block by block: the coded bits follow each other from bit `w_offset` on. -/
def encodeTbOff (maxCb : ℕ) (data : Bytes) : Option (List (TcodLutEncoded × List Bool)) :=
  if s.f ≠ 0 then none
  else if s.c > maxCb then none
  else E.encodeLoop s rv data (s.encodeBlocks qm nofEBits s.c 0 0 0) 0 0

def eBits (blocks : List (TcodLutEncoded × List Bool)) : List Bool := blocks.flatMap Prod.snd

end SchEnv

def writeOctets (mem : ℕ → UInt8) (pos n : ℕ) (octets : ℕ → UInt8) (j : ℕ) : UInt8 :=
  if pos ≤ j ∧ j < pos + n then octets (j - pos) else mem j

def readOctets (mem : ℕ → UInt8) (pos n : ℕ) : Bytes := (List.range n).map fun j => mem (pos + j)

/-- `srslte_softbuffer_rx_t`, without the soft bits. -/
structure SoftbufferRx where
  maxCb : ℕ
  cbCrc : ℕ → Bool
  data : ℕ → ℕ → UInt8

def decodeIterations (crc : Crc) (pos cbLen lenCrc : ℕ) (output : ℕ → ℕ → UInt8) :
    ℕ → ℕ → (ℕ → UInt8) → (ℕ → UInt8) × Bool
  | 0, _, mem => (mem, false)
  | left + 1, iteration, mem =>
    let mem := writeOctets mem pos (cbLen / 8) (output iteration)
    if crc.checksumByte (readOctets mem pos (lenCrc / 8)) lenCrc = 0 then (mem, true)
    else decodeIterations crc pos cbLen lenCrc output left (iteration + 1) mem

namespace SchEnv

variable {α : Type*} (E : SchEnv α) (s : Cbsegm) (qm rv nofEBits : ℕ) (eBits : List α)

/-- The body of the first loop of `decode_tb_cb`, with `data` and the flags of the buffer. -/
def decodeCb (stored : ℕ → ℕ → UInt8) (st : (ℕ → UInt8) × (ℕ → Bool)) (cbIdx : ℕ) :
    (ℕ → UInt8) × (ℕ → Bool) :=
  let b := s.decodeBlock qm nofEBits cbIdx
  let pos := cbIdx * b.rlen / 8
  if st.2 cbIdx = false then
    let lenCrc := if s.c > 1 then b.cbLen else s.tbs + 24
    let crc := if s.c > 1 then Crc.crcCb else Crc.crcTb
    let soft := (eBits.drop b.wp).take b.nE
    let r := decodeIterations crc pos b.cbLen lenCrc (E.tdecIteration cbIdx b.cbLenIdx rv soft)
      (E.maxIterations - 1 + 1) 0 st.1
    (r.1, if r.2 then Function.update st.2 cbIdx true else st.2)
  else (writeOctets st.1 pos (b.rlen / 8) (stored cbIdx), st.2)

/-- `decode_tb_cb`: the data, the buffer after it, and whether every block has its checksum. -/
def decodeTbCb (buffer : SoftbufferRx) (data : ℕ → UInt8) : (ℕ → UInt8) × SoftbufferRx × Bool :=
  if s.c > 32 then (data, buffer, false)
  else
    let st := (List.range s.c).foldl (E.decodeCb s qm rv nofEBits eBits buffer.data)
      (data, buffer.cbCrc)
    let tbCrc := (List.range s.c).all st.2
    let save (i : ℕ) : ℕ → UInt8 :=
      let rlen := (s.decodeBlock qm nofEBits i).rlen
      if tbCrc = false ∧ i < s.c ∧ st.2 i = true then fun j =>
        if j < rlen / 8 then st.1 (i * rlen / 8 + j) else buffer.data i j
      else buffer.data i
    (st.1, { buffer with cbCrc := st.2, data := save }, tbCrc)

/-- `decode_tb`: whether it returns `SRSLTE_SUCCESS`, with the data. -/
def decodeTb (buffer : SoftbufferRx) (data : ℕ → UInt8) : Bool × (ℕ → UInt8) :=
  if s.tbs = 0 ∨ s.c = 0 then (true, data)
  else if s.f ≠ 0 then (false, data)
  else if s.c > buffer.maxCb then (false, data)
  else
    let data := writeOctets data (s.tbs / 8) 3 fun _ => 0
    let r := E.decodeTbCb s qm rv nofEBits eBits buffer data
    if r.2.2 then
      let parRx := Crc.crcTb.checksumByte (readOctets r.1 0 (s.tbs / 8)) s.tbs
      let parTx := (r.1 (s.tbs / 8)).toNat * 2 ^ 16 + (r.1 (s.tbs / 8 + 1)).toNat * 2 ^ 8 +
        (r.1 (s.tbs / 8 + 2)).toNat
      (decide (parRx = parTx ∧ parRx ≠ 0), r.1)
    else (false, r.1)

end SchEnv

end SrsLte

/-!
The encoder puts the smaller blocks first and the decoder the larger ones, and they cut the coded
bits differently where these do not divide evenly. Without both, every block is found again.
-/

namespace SrsLte

namespace Cbsegm

variable {s : Cbsegm} {qm nofEBits : ℕ}

theorem gamma_lt (hc : 0 < s.c) : s.gamma qm nofEBits < s.c := by
  unfold gamma
  rw [if_pos hc]
  exact Nat.mod_lt _ hc

theorem length_encodeBlocks (n i rp wp : ℕ) :
    (s.encodeBlocks qm nofEBits n i rp wp).length = n := by
  induction n generalizing i rp wp with
  | zero => rfl
  | succ n ih => exact congrArg (· + 1) (ih _ _ _)

theorem getElem?_encodeBlocks {n k : ℕ} (hk : k < n) (i rp wp : ℕ) : ∃ rp' wp',
    (s.encodeBlocks qm nofEBits n i rp wp)[k]? =
      some (s.encodeBlock qm nofEBits (i + k) rp' wp') := by
  induction n generalizing k i rp wp with
  | zero => exact absurd hk (Nat.not_lt_zero k)
  | succ n ih =>
    cases k with
    | zero => exact ⟨rp, wp, rfl⟩
    | succ k =>
      obtain ⟨rp', wp', h⟩ := ih (Nat.lt_of_succ_lt_succ hk) (i + 1) _ _
      refine ⟨rp', wp', ?_⟩
      rw [show i + (k + 1) = i + 1 + k by omega, ← h]
      rfl

theorem c2_eq_zero (hs : s.Exact)
    (h : (s.encodeBlocks qm nofEBits s.c 0 0 0)[0]? = some (s.decodeBlock qm nofEBits 0)) :
    s.c2 = 0 := by
  by_contra hc2
  obtain ⟨rp', wp', hb⟩ : ∃ rp' wp', (s.encodeBlocks qm nofEBits s.c 0 0 0)[0]? =
      some (s.encodeBlock qm nofEBits (0 + 0) rp' wp') := getElem?_encodeBlocks hs.c_pos 0 0 0
  have hlen := congrArg CodeBlock.cbLen (Option.some_injective _ (hb.symm.trans h))
  unfold encodeBlock decodeBlock at hlen
  dsimp only at hlen
  rw [if_pos (Nat.pos_of_ne_zero hc2), if_pos hs.c1_pos] at hlen
  exact absurd hlen (hs.lt hc2).ne

theorem frac_le {n d : ℕ} (hn : n < 2 ^ 18) (hd : d ≤ 32) : d ≤ 2 ^ (23 - Nat.log2 (n / d)) := by
  have hdiv : n / d < 2 ^ 18 := (Nat.div_le_self n d).trans_lt hn
  have hlog : Nat.log2 (n / d) < 18 := by
    rcases Nat.eq_zero_or_pos (n / d) with h0 | hpos
    · rw [h0, Nat.log2_zero]
      decide
    · exact (Nat.log2_lt hpos.ne').mpr hdiv
  have hpow : 2 ^ 5 ≤ 2 ^ (23 - Nat.log2 (n / d)) := Nat.pow_le_pow_right (by decide) (by omega)
  exact hd.trans hpow

theorem gamma_eq_zero (hs : s.Exact) (hqm : 0 < qm) (hbits : nofEBits / qm < 2 ^ 18)
    (hc : s.c ≤ 32)
    (h : ∀ i < s.c, (s.encodeBlocks qm nofEBits s.c 0 0 0)[i]? =
      some (s.decodeBlock qm nofEBits i)) :
    nofEBits / qm % s.c = 0 := by
  by_contra hgamma
  have hmod : s.gamma qm nofEBits = nofEBits / qm % s.c := if_pos hs.c_pos
  have hlt : s.gamma qm nofEBits < s.c := gamma_lt hs.c_pos
  have hi : s.c - s.gamma qm nofEBits < s.c := by omega
  obtain ⟨rp', wp', hb⟩ : ∃ rp' wp', (s.encodeBlocks qm nofEBits s.c 0 0 0)[_]? =
      some (s.encodeBlock qm nofEBits (0 + (s.c - s.gamma qm nofEBits)) rp' wp') :=
    getElem?_encodeBlocks hi 0 0 0
  have hlen := congrArg CodeBlock.nE (Option.some_injective _ (hb.symm.trans (h _ hi)))
  unfold encodeBlock decodeBlock at hlen
  dsimp only at hlen
  rw [Nat.zero_add, if_neg (by omega), if_neg (Nat.lt_irrefl _),
    ceilfDiv_eq hs.c_pos hgamma (frac_le hbits hc)] at hlen
  have hcancel := Nat.eq_of_mul_eq_mul_left hqm hlen
  omega

def evenBlock (s : Cbsegm) (qm nofEBits i : ℕ) : CodeBlock :=
  let rlen := if s.c = 1 then s.k1 else s.k1 - 24
  let nE := qm * (nofEBits / qm / s.c)
  ⟨s.k1, s.k1Idx, rlen, i * rlen, i * nE, nE⟩

section Even

variable (hs : s.Exact) (hc2 : s.c2 = 0) (hgamma : nofEBits / qm % s.c = 0)

include hs hc2 hgamma

theorem decodeBlock_even {i : ℕ} (hi : i < s.c) :
    s.decodeBlock qm nofEBits i = s.evenBlock qm nofEBits i := by
  have hc1 : i < s.c1 := by
    have := hs.blocks
    omega
  have hg : s.gamma qm nofEBits = 0 := (if_pos hs.c_pos).trans hgamma
  unfold decodeBlock evenBlock
  dsimp only
  have hlow : ¬ i > s.c - 0 := Nat.not_lt.mpr hi.le
  rw [if_pos hc1, if_pos hc1, hg, if_neg hlow, if_neg hlow]

theorem encodeBlocks_even {n i : ℕ} (hi : i + n ≤ s.c) :
    s.encodeBlocks qm nofEBits n i (s.evenBlock qm nofEBits i).rp (s.evenBlock qm nofEBits i).wp =
      (List.range n).map fun j => s.evenBlock qm nofEBits (i + j) := by
  induction n generalizing i with
  | zero => rfl
  | succ n ih =>
    have hg : s.gamma qm nofEBits = 0 := (if_pos hs.c_pos).trans hgamma
    have hblock : s.encodeBlock qm nofEBits i (s.evenBlock qm nofEBits i).rp
        (s.evenBlock qm nofEBits i).wp = s.evenBlock qm nofEBits i := by
      have hsize : ∀ a b : ℕ, (if s.c > 1 then a else b) = if s.c = 1 then b else a := by
        intro a b
        by_cases hc : s.c = 1
        · rw [if_pos hc, if_neg (by omega)]
        · have := hs.c_pos
          rw [if_neg hc, if_pos (by omega)]
      have hlarge : ¬ i < s.c2 := by omega
      have hequal : i ≤ s.c - 0 - 1 := by omega
      unfold encodeBlock evenBlock
      dsimp only
      rw [if_neg hlarge, if_neg hlarge, hg, if_pos hequal, hsize]
    rw [encodeBlocks, hblock, List.range_succ_eq_map, List.map_cons, List.map_map]
    congr 1
    have hnext := ih (i := i + 1) (by omega)
    have hrp : (s.evenBlock qm nofEBits (i + 1)).rp =
        (s.evenBlock qm nofEBits i).rp + (s.evenBlock qm nofEBits i).rlen := Nat.succ_mul _ _
    have hwp : (s.evenBlock qm nofEBits (i + 1)).wp =
        (s.evenBlock qm nofEBits i).wp + (s.evenBlock qm nofEBits i).nE := Nat.succ_mul _ _
    rw [← hrp, ← hwp, hnext]
    refine List.map_congr_left fun j _ => ?_
    rw [Function.comp_apply, Nat.succ_eq_add_one, Nat.add_assoc, Nat.add_comm 1 j]

theorem getElem?_encodeBlocks_even {i : ℕ} (hi : i < s.c) :
    (s.encodeBlocks qm nofEBits s.c 0 0 0)[i]? = some (s.evenBlock qm nofEBits i) := by
  have hall := encodeBlocks_even hs hc2 hgamma (n := s.c) (i := 0) (by omega)
  have hstart : (s.evenBlock qm nofEBits 0).rp = 0 ∧ (s.evenBlock qm nofEBits 0).wp = 0 :=
    ⟨Nat.zero_mul _, Nat.zero_mul _⟩
  rw [hstart.1, hstart.2] at hall
  rw [hall, List.getElem?_map, List.getElem?_range hi, Option.map_some, Nat.zero_add]

end Even

theorem blocks_agree_iff (hs : s.Exact) (hqm : 0 < qm) (hbits : nofEBits / qm < 2 ^ 18)
    (hc : s.c ≤ 32) :
    (∀ i < s.c, (s.encodeBlocks qm nofEBits s.c 0 0 0)[i]? = some (s.decodeBlock qm nofEBits i)) ↔
      s.c2 = 0 ∧ nofEBits / qm % s.c = 0 := by
  constructor
  · intro h
    exact ⟨c2_eq_zero hs (h 0 hs.c_pos), gamma_eq_zero hs hqm hbits hc h⟩
  · rintro ⟨hc2, hgamma⟩ i hi
    rw [getElem?_encodeBlocks_even hs hc2 hgamma hi, decodeBlock_even hs hc2 hgamma hi]

end Cbsegm

end SrsLte
